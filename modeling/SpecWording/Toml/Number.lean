import SpecWording.Text.Scanner
import SpecWording.Toml.Value

/-!
# Numbers in TOML

Whole numbers are of 64 bits, and those without a sign may be written in base 16, 8 or 2. A number
with a fraction or an exponent is a floating-point number; one that is too large is refused unless
it is negative. An underscore may stand between two digits.
-/

namespace SpecWording.Toml.Number

open Text (Scanner)
open Text.Scanner (satisfying char oneOf repeated literal)
open Decimal (Binary64)

/-- Digits of a kind with single underscores between them. -/
def digits (isDigit : Char → Bool) : Scanner (List Char) := do
  let first ← satisfying isDigit
  return first :: (← repeated do
    let _ ← optional (char '_')
    satisfying isDigit)

/-- Fails where an underscore comes next, which no digit followed. -/
def noUnderscore : Scanner Unit := fun cs => if cs.head? = some '_' then none else some ((), cs)

def isNegative (sign : Option Char) : Bool := sign == some '-'

def sign : Scanner Bool := do return isNegative (← optional (oneOf ['+', '-']))

/-- The digits of a decimal whole number, without leading zeros. -/
def whole : Scanner (List Char) := do
  let first ← satisfying Char.isDigit
  if first = '0' then return ['0']
  else return first :: (← repeated do
    let _ ← optional (char '_')
    satisfying Char.isDigit)

def digitValue (c : Char) : Nat :=
  if c.isDigit then c.toNat - '0'.toNat else c.toLower.toNat - 'a'.toNat + 10

def valueOf (base : Nat) (digits : List Char) : Nat :=
  digits.foldl (fun value c => value * base + digitValue c) 0

/-- The magnitude of the smallest whole number, which is no magnitude of a positive one. -/
def greatestMagnitude : Nat := 0x8000000000000000

/-- A whole number of 64 bits, or none. -/
def integer? (negative : Bool) (magnitude : Nat) : Option Value :=
  if magnitude < greatestMagnitude ∨ (negative ∧ magnitude = greatestMagnitude) then
    some (.integer (if negative then -(magnitude : Int) else magnitude))
  else none

def isDigitOf (base : Nat) (c : Char) : Bool :=
  (c.isDigit || ('a' ≤ c.toLower && c.toLower ≤ 'f')) && digitValue c < base

/-- A number after the two characters that name its base. -/
def inBase (base : Nat) : Scanner Value := do
  let digits ← digits (isDigitOf base)
  noUnderscore
  (integer? false (valueOf base digits) : Option Value)

def decimalInteger : Scanner Value := do
  let negative ← sign
  let digits ← whole
  noUnderscore
  (integer? negative (valueOf 10 digits) : Option Value)

def fraction : Scanner (List Char) := do
  char '.'
  let digits ← digits Char.isDigit
  noUnderscore
  return digits

def exponent : Scanner Int := do
  let _ ← oneOf ['e', 'E']
  let negative ← sign
  let digits ← digits Char.isDigit
  noUnderscore
  let magnitude : Int := valueOf 10 digits
  return if negative then -magnitude else magnitude

/-- The floating-point number that a decimal is read as. -/
def float? (negative : Bool) (whole fraction : List Char) (exponent : Int) : Option Value :=
  match Binary64.nearest negative (valueOf 10 (whole ++ fraction)) (exponent - fraction.length) with
  | .infinite false => none
  | value => some (.float value)

/-- A number with a fraction, an exponent or both. -/
def float : Scanner Value := do
  let negative ← sign
  let whole ← whole
  let fraction ← optional fraction
  let exponent ← if fraction.isSome then optional exponent else some <$> exponent
  (float? negative whole (fraction.getD []) (exponent.getD 0) : Option Value)

def specialFloat : Scanner Value := do
  let negative ← sign
  (do literal ['i', 'n', 'f']; return .float (.infinite negative)) <|>
    (do literal ['n', 'a', 'n']; return .float .nan)

def based : Scanner Value := do
  char '0'
  match ← oneOf ['x', 'o', 'b'] with
  | 'x' => inBase 16
  | 'o' => inBase 8
  | _ => inBase 2

def number : Scanner Value := float <|> specialFloat <|> based <|> decimalInteger

end SpecWording.Toml.Number
