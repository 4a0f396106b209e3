import SpecWording.Text.Scanner

/-!
# Dates and times in TOML

A date, a time, or both with an optional offset. They come out in the form of RFC 3339: a capital T
between date and time, a capital Z, no more than nine places after the second and no zero at the end.
-/

namespace SpecWording.Toml.Datetime

open Text (Scanner)
open Text.Scanner (exactly char oneOf many)

def numberOf (digits : List Char) : Nat :=
  digits.foldl (fun value c => value * 10 + (c.toNat - '0'.toNat)) 0

/-- A field of two digits, of a value within bounds. -/
def field (least greatest : Nat) : Scanner (List Char) := do
  let digits ← exactly 2 Char.isDigit
  if least ≤ numberOf digits ∧ numberOf digits ≤ greatest then return digits else failure

def isLeapYear (year : Nat) : Bool := year % 4 == 0 && (year % 100 != 0 || year % 400 == 0)

def daysIn (year month : Nat) : Nat :=
  if month = 2 then if isLeapYear year then 29 else 28
  else if [4, 6, 9, 11].contains month then 30
  else 31

def date : Scanner (List Char) := do
  let year ← exactly 4 Char.isDigit
  char '-'
  let month ← field 1 12
  char '-'
  let day ← field 1 (daysIn (numberOf year) (numberOf month))
  return year ++ '-' :: month ++ '-' :: day

/-- The places after the second. -/
def places : Scanner (List Char) := do
  char '.'
  let digits ← many Char.isDigit
  if digits.isEmpty then failure
  let shown := ((digits.take 9).reverse.dropWhile (· == '0')).reverse
  return if shown.isEmpty then [] else '.' :: shown

def time : Scanner (List Char) := do
  let hour ← field 0 23
  char ':'
  let minute ← field 0 59
  char ':'
  let second ← field 0 60
  let places? ← optional places
  return hour ++ ':' :: minute ++ ':' :: second ++ places?.getD []

/-- A `Z`, or a distance in hours and minutes; no distance has the sign `+`. -/
def offset : Scanner (List Char) :=
  (do let _ ← oneOf ['Z', 'z']; return ['Z']) <|> do
    let sign ← oneOf ['+', '-']
    let hour ← field 0 23
    char ':'
    let minute ← field 0 59
    let sign := if numberOf hour = 0 ∧ numberOf minute = 0 then '+' else sign
    return sign :: hour ++ ':' :: minute

/-- What follows a date: the time of day, with or without an offset. -/
def timeOfDay : Scanner (List Char) := do
  let _ ← oneOf ['T', 't', ' ']
  let time ← time
  return 'T' :: time ++ (← optional offset).getD []

def datetime : Scanner String :=
  (do
    let date ← date
    return String.ofList (date ++ (← optional timeOfDay).getD [])) <|> do
  return String.ofList (← time)

end SpecWording.Toml.Datetime
