/-
  Quoted names in messages. A text is put between single quotes, or between double quotes when it
  holds single quotes only; backslashes, line breaks and characters without a glyph are escaped.
-/
import CentralPath.Text.Visible

namespace CentralPath.Text

/-- The quote that a text is put between. -/
def quoteFor (cs : List Char) : Char :=
  if cs.contains '\'' && !cs.contains '"' then '"' else '\''

/-- A number in hexadecimal, padded with zeros to a width. -/
def hex (width n : Nat) : List Char :=
  let digits := Nat.toDigits 16 n
  List.replicate (width - digits.length) '0' ++ digits

/-- How one character stands between the given quotes. Hidden characters are given by number. -/
def escape (hidden : Char → Bool) (quote c : Char) : List Char :=
  if c == quote || c == '\\' then ['\\', c]
  else if c == '\n' then ['\\', 'n']
  else if c == '\r' then ['\\', 'r']
  else if c == '\t' then ['\\', 't']
  else if hidden c then
    if c.toNat < 0x100 then '\\' :: 'x' :: hex 2 c.toNat
    else if c.toNat < 0x10000 then '\\' :: 'u' :: hex 4 c.toNat
    else '\\' :: 'U' :: hex 8 c.toNat
  else [c]

/-- A text between quotes, with some characters hidden. -/
def quotedHiding (hidden : Char → Bool) (s : String) : String :=
  let q := quoteFor s.toList
  String.ofList (q :: s.toList.flatMap (escape hidden q) ++ [q])

/-- A text between quotes. -/
def quoted (s : String) : String := quotedHiding isHidden s

/-- A text between quotes, in ASCII characters only. -/
def quotedAscii (s : String) : String := quotedHiding (fun c => isHidden c || 127 < c.toNat) s

end CentralPath.Text
