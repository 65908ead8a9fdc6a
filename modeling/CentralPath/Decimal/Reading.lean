/-
  Reading decimal text. `readDouble?` takes a sign, digits with an optional point, an optional
  exponent, or a word for infinity or "not a number", and rounds to the nearest double;
  `readInteger?` takes a sign and digits.
-/
import CentralPath.Text.Blank

namespace CentralPath.Decimal

/-- The value of decimal digits. -/
def digitsValue (cs : List Char) : Nat :=
  cs.foldl (fun n c => 10 * n + (c.toNat - '0'.toNat)) 0

/-- Splits off a leading sign. -/
def splitSign : List Char → Bool × List Char
  | '-' :: cs => (true, cs)
  | '+' :: cs => (false, cs)
  | cs => (false, cs)

/-- An optional sign and at least one digit, nothing else. -/
def readInteger? (cs : List Char) : Option Int :=
  let (negative, digits) := splitSign cs
  if digits.isEmpty || !digits.all Char.isDigit then none
  else
    let n : Int := digitsValue digits
    some (if negative then -n else n)

/-- Exponents beyond this size decide the answer by themselves: nothing of fewer than a thousand
digits is then anything but zero or infinite. -/
def exponentLimit : Nat := 5000

/-- The double nearest to `± coefficient · 10 ^ exponent`. -/
def nearestDouble (negative : Bool) (coefficient : Nat) (exponent : Int) : Float :=
  let magnitude :=
    if coefficient = 0 then 0.0
    else if (exponentLimit : Int) < exponent then 1.0 / 0.0
    else if exponent < -(exponentLimit : Int) - 20 * (Nat.log2 coefficient : Int) then 0.0
    else if 0 ≤ exponent then Float.ofScientific (coefficient * Nat.pow 10 exponent.toNat) false 0
    else Float.ofScientific coefficient true (-exponent).toNat
  if negative then -magnitude else magnitude

/-- The exponent part after the mantissa: nothing, or a mark and an integer. -/
def readExponent? : List Char → Option Int
  | [] => some 0
  | c :: cs => if c = 'e' ∨ c = 'E' then readInteger? cs else none

/-- A decimal number with digits on at least one side of the point. -/
def readFinite? (negative : Bool) (cs : List Char) : Option Float :=
  let whole := cs.takeWhile Char.isDigit
  let afterWhole := cs.dropWhile Char.isDigit
  let (fraction, rest) := match afterWhole with
    | '.' :: tail => (tail.takeWhile Char.isDigit, tail.dropWhile Char.isDigit)
    | _ => ([], afterWhole)
  if whole.isEmpty && fraction.isEmpty then none
  else (readExponent? rest).map fun e =>
    nearestDouble negative (digitsValue (whole ++ fraction)) (e - (fraction.length : Int))

/-- Decimal text, or one of the words for infinity and "not a number" in any case. -/
def readDouble? (cs : List Char) : Option Float :=
  let (negative, body) := splitSign cs
  let word := String.ofList (body.map Char.toLower)
  if word == "inf" || word == "infinity" then
    some (if negative then -(1.0 / 0.0) else 1.0 / 0.0)
  else if word == "nan" then some (0.0 / 0.0)
  else readFinite? negative body

end CentralPath.Decimal
