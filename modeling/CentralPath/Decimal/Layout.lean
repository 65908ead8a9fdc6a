/-
  Number text. A `Style` says how chosen digits are laid out: where positional notation ends, how
  wide the exponent is, what stands for the values without digits. `shortestText` writes the fewest
  digits that read back, `scientificText` a fixed count of digits, `fixedText` a fixed count of
  places.
-/
import CentralPath.Decimal.Digits

namespace CentralPath.Decimal

open Binary (Value)

/-- How number text looks. -/
structure Style where
  /-- Leading exponents from here on are written positionally. -/
  positionalFrom : Int
  /-- Leading exponents from here on are written with an exponent again. -/
  positionalBelow : Int
  /-- What follows a whole number in positional notation. -/
  wholeMark : String
  /-- The least number of exponent digits. -/
  exponentWidth : Nat
  nanText : String
  infinityText : String

/-- Numbers are positional from 0.0001 up to 10 ^ 16, a whole one keeps a point and a zero, and an
exponent has a sign and two digits. -/
def plain : Style where
  positionalFrom := -4
  positionalBelow := 16
  wholeMark := ".0"
  exponentWidth := 2
  nanText := "nan"
  infinityText := "inf"

/-- Puts zeros in front up to a width. -/
def padLeft (width : Nat) (s : String) : String :=
  String.ofList (List.replicate (width - s.length) '0') ++ s

/-- Exponent text: mark, sign, digits. -/
def exponentText (style : Style) (e : Int) : String :=
  (if e < 0 then "e-" else "e+") ++ padLeft style.exponentWidth (toString e.natAbs)

/-- The text of digits with a point after the first `whole` of them. -/
def pointAfter (digits : List Char) (whole : Nat) : String :=
  if digits.length ≤ whole then String.ofList digits
  else String.ofList (digits.take whole) ++ "." ++ String.ofList (digits.drop whole)

/-- A positive decimal in positional notation. -/
def positional (style : Style) (d : Digits) : String :=
  let digits := (toString d.coefficient).toList
  if 0 ≤ d.exponent then
    String.ofList (digits ++ List.replicate d.exponent.toNat '0') ++ style.wholeMark
  else
    let fraction := (-d.exponent).toNat
    let padded := List.replicate (fraction + 1 - digits.length) '0' ++ digits
    pointAfter padded (padded.length - fraction)

/-- A decimal with an exponent; every digit of the coefficient is written. -/
def withExponent (style : Style) (d : Digits) : String :=
  let digits := (toString d.coefficient).toList
  pointAfter digits 1 ++ exponentText style (d.exponent + (digits.length : Int) - 1)

/-- A minus sign where one is due. -/
def signed (negative : Bool) (s : String) : String := if negative then "-" ++ s else s

/-- The fewest digits that read back. -/
def shortestText (style : Style) : Value → String
  | .nan => style.nanText
  | .infinite negative => signed negative style.infinityText
  | .finite negative m q =>
    signed negative <|
      if m = 0 then "0" ++ style.wholeMark
      else
        let d := shortest m q
        let lead := d.exponent + (digitCount d.coefficient : Int) - 1
        if style.positionalFrom ≤ lead ∧ lead < style.positionalBelow then positional style d
        else withExponent style d

/-- One digit, `count` further digits and an exponent. -/
def scientificText (style : Style) (count : Nat) : Value → String
  | .nan => style.nanText
  | .infinite negative => signed negative style.infinityText
  | .finite negative m q =>
    signed negative <|
      if m = 0 then pointAfter (List.replicate (count + 1) '0') 1 ++ exponentText style 0
      else withExponent style (significant m q count)

/-- All whole digits and `count` places. -/
def fixedText (style : Style) (count : Nat) : Value → String
  | .nan => style.nanText
  | .infinite negative => signed negative style.infinityText
  | .finite negative m q =>
    let digits := (padLeft (count + 1) (toString (places m q count))).toList
    signed negative (pointAfter digits (digits.length - count))

/-- The fewest digits that read back, in the plain style. -/
def render (x : Float) : String := shortestText plain (Binary.decode x)

/-- Scientific text of a double in the plain style. -/
def renderScientific (count : Nat) (x : Float) : String :=
  scientificText plain count (Binary.decode x)

/-- Fixed-place text of a double in the plain style. -/
def renderFixed (count : Nat) (x : Float) : String := fixedText plain count (Binary.decode x)

end CentralPath.Decimal
