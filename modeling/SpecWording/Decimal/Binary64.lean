/-!
# Binary floating-point numbers as decimals

A number of the 64-bit format is kept as its sign, its significand and its power of two. `nearest`
reads a decimal: the number closest to it, and of two equally close ones the one with the even
significand. `shortest` gives the decimal with the fewest digits that reads back as the same number.
All of it is arithmetic on whole numbers.
-/

namespace SpecWording.Decimal

inductive Binary64 where
  | nan
  | infinite (negative : Bool)
  /-- The number `significand * 2 ^ (power - 1074)`, with the sign in front. -/
  | finite (negative : Bool) (significand power : Nat)
  deriving DecidableEq, Repr, Inhabited

/-- Decimal digits of a number above zero, from the first on, and the power of ten of the first. -/
structure Digits where
  digits : List Nat
  exponent : Int
  deriving DecidableEq, Repr

def twoTo (power : Nat) : Nat := Nat.pow 2 power

def tenTo (power : Nat) : Nat := Nat.pow 10 power

/-- The whole number closest to a quotient; a half goes to the even neighbour. -/
def roundEven (num den : Nat) : Nat :=
  let quotient := num / den
  let twice := 2 * (num % den)
  if twice < den || (twice == den && quotient % 2 == 0) then quotient else quotient + 1

namespace Binary64

/-- The number closest to a positive quotient. -/
def ofQuotient (negative : Bool) (num den : Nat) : Binary64 :=
  let scaled := num * twoTo 1074
  let excess := (scaled / den).log2 - 52
  let rounded := roundEven scaled (den * twoTo excess)
  let (significand, power) :=
    if rounded = twoTo 53 then (twoTo 52, excess + 1) else (rounded, excess)
  if power > 2045 then infinite negative else finite negative significand power

/-- The number closest to `mantissa * 10 ^ exponent`. -/
def nearest (negative : Bool) (mantissa : Nat) (exponent : Int) : Binary64 :=
  let size := exponent + (Nat.toDigits 10 mantissa).length
  if mantissa = 0 || size < -330 then finite negative 0 0
  else if size > 310 then infinite negative
  else if exponent ≥ 0 then ofQuotient negative (mantissa * tenTo exponent.toNat) 1
  else ofQuotient negative mantissa (tenTo (-exponent).toNat)

/-- The two sides of a comparison of `count * 10 ^ power` with `quarters * 2 ^ (binary - 1076)`. -/
def sides (count : Nat) (power : Int) (quarters binary : Nat) : Nat × Nat :=
  (count * tenTo power.toNat * twoTo 1076, quarters * twoTo binary * tenTo (-power).toNat)

/-- The power of ten of the first digit of a number above zero. -/
def leadingPower (significand power : Nat) : Int :=
  ((Nat.toDigits 10 (significand * twoTo power * tenTo 400 / twoTo 1074)).length : Int) - 401

/--
The neighbour with `count` digits that reads back as the number, if there is one. What reads back
lies between the two middles to the next numbers, and on a middle only if the significand is even.
-/
def neighbour? (significand power count : Nat) : Option (Nat × Int) :=
  let unit := leadingPower significand power - count + 1
  let below := if significand = twoTo 52 ∧ power > 0 then 4 * significand - 1 else 4 * significand - 2
  let above := 4 * significand + 2
  let readsBack (c : Nat) : Bool :=
    let (left, low) := sides c unit below power
    let (_, high) := sides c unit above power
    if significand % 2 = 0 then low ≤ left && left ≤ high else low < left && left < high
  let (one, exact) := sides 1 unit (4 * significand) power
  let down := exact / one
  let up := down + 1
  match readsBack down, readsBack up with
  | true, true => some (if 2 * (exact % one) ≤ one then (down, unit) else (up, unit))
  | true, false => some (down, unit)
  | false, true => some (up, unit)
  | false, false => none

def digitsOf (count : Nat) : List Nat := (Nat.toDigits 10 count).map fun c => c.toNat - '0'.toNat

/-- The fewest digits that read back as the number; seventeen always suffice. -/
def shortest (significand power : Nat) : Digits :=
  match ((List.range 17).map (· + 1)).findSome? (neighbour? significand power) with
  | some (count, unit) =>
    let digits := digitsOf count
    ⟨((digits.reverse.dropWhile (· == 0)).reverse), unit + digits.length - 1⟩
  | none => ⟨[0], 0⟩

end Binary64

/-! ## Writing a number -/

def digitChars (digits : List Nat) : List Char := digits.map fun d => Char.ofNat (d + '0'.toNat)

/-- Digits with a period, and a zero after it where nothing else stands. -/
def positional (value : Digits) : List Char :=
  let chars := digitChars value.digits
  if value.exponent < 0 then
    '0' :: '.' :: List.replicate (-value.exponent - 1).toNat '0' ++ chars
  else
    let whole := value.exponent.toNat + 1
    let fraction := chars.drop whole
    chars.take whole ++ List.replicate (whole - chars.length) '0' ++
      '.' :: (if fraction.isEmpty then ['0'] else fraction)

def scientific (value : Digits) : List Char :=
  let chars := digitChars value.digits
  chars.take 1 ++ (if chars.length > 1 then '.' :: chars.drop 1 else []) ++
    'e' :: (toString value.exponent).toList

/-- The text of a number: positional from a ten-thousandth up to below ten to the sixteenth. -/
def Binary64.text : Binary64 → String
  | .nan => "NaN"
  | .infinite negative => if negative then "-inf" else "inf"
  | .finite negative significand power =>
    let value := if significand = 0 then ⟨[0], 0⟩ else Binary64.shortest significand power
    let chars :=
      if -4 ≤ value.exponent ∧ value.exponent < 16 then positional value else scientific value
    String.ofList (if negative then '-' :: chars else chars)

end SpecWording.Decimal
