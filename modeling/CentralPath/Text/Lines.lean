/-
  Text cut into lines. A line ends at a line feed, a carriage return, both in a row, or one of the
  other characters that end a line; text behind the last end is a line of its own.
-/

namespace CentralPath.Text

/-- Characters that end a line. -/
def lineEnds : List Nat := [0x0a, 0x0b, 0x0c, 0x0d, 0x1c, 0x1d, 0x1e, 0x85, 0x2028, 0x2029]

/-- Whether a character ends a line. -/
def endsLine (c : Char) : Bool := lineEnds.contains c.toNat

/-- The lines of a text; `line` is what was read of the current one, last character first. -/
def linesFrom (line : List Char) : List Char → List (List Char)
  | [] => if line.isEmpty then [] else [line.reverse]
  | '\r' :: '\n' :: cs => line.reverse :: linesFrom [] cs
  | c :: cs => if endsLine c then line.reverse :: linesFrom [] cs else linesFrom (c :: line) cs

/-- The lines of a text. -/
def lines (s : String) : List String := (linesFrom [] s.toList).map String.ofList

end CentralPath.Text
