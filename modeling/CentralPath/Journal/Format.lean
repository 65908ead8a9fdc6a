/-
  Record formats. A format is text with placeholders in it, such as `%(name)s` or `%(levelname)-8s`,
  which a record fills; a doubled percent sign stands for one. A format without any placeholder is
  refused from the start. One with a placeholder that cannot be filled is refused record by record.
-/
import CentralPath.Decimal.Reading
import CentralPath.Journal.Level
import CentralPath.Text.Quoted

namespace CentralPath.Journal

/-- A record on its way to a reader. -/
structure Entry where
  level : Int
  source : String
  message : String
  deriving Repr, DecidableEq

/-- The format of a reader who did not ask for one. -/
def defaultFormat : String := "[%(levelname)s] %(name)s: %(message)s"

/-- What a field of a format stands for, if it stands for anything. -/
def Entry.field? (e : Entry) (name : String) : Option String :=
  if name == "levelname" then some (levelName e.level)
  else if name == "name" then some e.source
  else if name == "message" then some e.message
  else none

/-- What a format asks for in one place. -/
structure Placeholder where
  field : Option String
  leftAligned : Bool
  width : Nat
  /-- The number of characters that are let through. -/
  precision : Option Nat
  conversion : Char
  deriving Repr, DecidableEq

namespace Placeholder

/-- The text up to the parenthesis that closes `depth` open ones, and what follows it. -/
def closing? : Nat → List Char → Option (List Char × List Char)
  | _, [] => none
  | depth, c :: cs =>
    if c = ')' ∧ depth ≤ 1 then some ([], cs)
    else
      let deeper := if c = '(' then depth + 1 else if c = ')' then depth - 1 else depth
      (closing? deeper cs).map fun (inner, rest) => (c :: inner, rest)

/-- The field in parentheses at the head of a text, if there is one, and what follows it. -/
def splitField? : List Char → Option (Option String × List Char)
  | '(' :: cs => (closing? 1 cs).map fun (name, rest) => (some (String.ofList name), rest)
  | cs => some (none, cs)

/-- Marks that may stand before the width. -/
def isFlag (c : Char) : Bool := c == '-' || c == '+' || c == ' ' || c == '#' || c == '0'

/-- The precision at the head of a text, if there is one, and what follows it. -/
def splitPrecision : List Char → Option Nat × List Char
  | '.' :: cs =>
    (some (Decimal.digitsValue (cs.takeWhile Char.isDigit)), cs.dropWhile Char.isDigit)
  | cs => (none, cs)

/-- Drops a size mark, which has no meaning. -/
def afterSize : List Char → List Char
  | c :: cs => if c = 'h' ∨ c = 'l' ∨ c = 'L' then cs else c :: cs
  | [] => []

/-- Reads a placeholder behind its percent sign; the rest of the text comes with it. -/
def read? (cs : List Char) : Option (Placeholder × List Char) :=
  match splitField? cs with
  | none => none
  | some (field, afterField) =>
    let flags := afterField.takeWhile isFlag
    let afterFlags := afterField.dropWhile isFlag
    let width := Decimal.digitsValue (afterFlags.takeWhile Char.isDigit)
    let (letters, afterPrecision) := splitPrecision (afterFlags.dropWhile Char.isDigit)
    match afterSize afterPrecision with
    | [] => none
    | c :: rest => some (⟨field, flags.contains '-', width, letters, c⟩, rest)

theorem length_closing? {depth : Nat} {cs inner rest : List Char}
    (h : closing? depth cs = some (inner, rest)) : rest.length ≤ cs.length := by
  induction cs generalizing depth inner with
  | nil => simp [closing?] at h
  | cons c cs ih =>
    simp only [closing?] at h
    split at h
    · simp_all
    · simp only [Option.map_eq_some_iff, Prod.mk.injEq] at h
      obtain ⟨⟨_, _⟩, hr, -, rfl⟩ := h
      exact Nat.le_succ_of_le (ih hr)

theorem length_splitField? {cs rest : List Char} {field : Option String}
    (h : splitField? cs = some (field, rest)) : rest.length ≤ cs.length := by
  unfold splitField? at h
  split at h
  · simp only [Option.map_eq_some_iff, Prod.mk.injEq] at h
    obtain ⟨⟨_, _⟩, hr, -, rfl⟩ := h
    exact Nat.le_succ_of_le (length_closing? hr)
  · simp_all

theorem length_splitPrecision (cs : List Char) : (splitPrecision cs).2.length ≤ cs.length := by
  unfold splitPrecision
  split
  · have := (List.dropWhile_sublist (l := ‹List Char›) Char.isDigit).length_le
    simp only [List.length_cons]
    omega
  · simp

theorem length_afterSize (cs : List Char) : (afterSize cs).length ≤ cs.length := by
  unfold afterSize
  split
  · split <;> simp
  · simp

/-- A placeholder uses up at least one character. -/
theorem length_read? {cs rest : List Char} {p : Placeholder} (h : read? cs = some (p, rest)) :
    rest.length < cs.length := by
  unfold read? at h
  split at h
  · simp at h
  · rename_i field afterField hField
    have h1 := length_splitField? hField
    have h2 := (List.dropWhile_sublist (l := afterField) isFlag).length_le
    have h3 := (List.dropWhile_sublist (l := afterField.dropWhile isFlag) Char.isDigit).length_le
    have h4 := length_splitPrecision ((afterField.dropWhile isFlag).dropWhile Char.isDigit)
    have h5 := length_afterSize
      (splitPrecision ((afterField.dropWhile isFlag).dropWhile Char.isDigit)).2
    simp only at h
    split at h
    · simp at h
    · rename_i c r hc
      simp only [Option.some.injEq, Prod.mk.injEq] at h
      obtain ⟨-, rfl⟩ := h
      rw [hc, List.length_cons] at h5
      omega

/-- A text cut to the precision and filled up to the width. -/
def fit (p : Placeholder) (text : String) : List Char :=
  let shown := match p.precision with
    | none => text.toList
    | some k => text.toList.take k
  let blanks := List.replicate (p.width - shown.length) ' '
  if p.leftAligned then shown ++ blanks else blanks ++ shown

/-- What a record puts in the place of a field. There are conversions for numbers too, but no field
holds one. -/
def convert? (p : Placeholder) (text : String) : Option (List Char) :=
  match p.conversion with
  | 's' => some (p.fit text)
  | 'r' => some (p.fit (Text.quoted text))
  | 'a' => some (p.fit (Text.quotedAscii text))
  | 'c' => if text.length = 1 then some (p.fit text) else none
  | _ => none

/-- What a record puts in the place of a placeholder. Without a field there is nothing to put
there. -/
def fill? (p : Placeholder) (e : Entry) : Option (List Char) :=
  (p.field.bind e.field?).bind p.convert?

end Placeholder

/-- Fills a format, unless it has a placeholder that the record cannot fill. -/
def fill? (e : Entry) : List Char → Option (List Char)
  | [] => some []
  | '%' :: '%' :: cs => (fill? e cs).map ('%' :: ·)
  | c :: cs =>
    if c = '%' then
      match _h : Placeholder.read? cs with
      | none => none
      | some (p, rest) => do
        let text ← p.fill? e
        let others ← fill? e rest
        pure (text ++ others)
    else (fill? e cs).map (c :: ·)
termination_by cs => cs.length
decreasing_by
  · simp only [List.length_cons]
    omega
  · have := Placeholder.length_read? _h
    simp only [List.length_cons]
    omega
  · simp

/-- The format that an empty one stands for: the bare message. -/
def spelledOut (format : String) : String := if format.isEmpty then "%(message)s" else format

/-- A record in a format, unless it cannot fill it. -/
def Entry.format? (e : Entry) (format : String) : Option String :=
  (fill? e (spelledOut format).toList).map String.ofList

/-! ## Acceptable formats -/

/-- Characters of field names. -/
def isNameChar (c : Char) : Bool := c.isAlphanum || c == '_' || 127 < c.toNat

/-- Letters and signs that a placeholder may end in, in any case. Three letters outside ASCII have
one of them as their other case. -/
def endings : List Char := "diouxefgcrsaDIOUXEFGCRSA%ıİſ".toList

/-- What follows an optional star or number at the head of a text. -/
def afterCount : List Char → List Char
  | '*' :: cs => cs
  | cs => cs.dropWhile Char.isDigit

/-- What follows an optional precision, which has at least one digit. -/
def afterPrecision : List Char → List Char
  | '.' :: '*' :: cs => cs
  | '.' :: c :: cs => if c.isDigit then cs.dropWhile Char.isDigit else '.' :: c :: cs
  | cs => cs

/-- Whether a placeholder with a field stands at the head of a text. -/
def startsWithPlaceholder : List Char → Bool
  | '%' :: '(' :: cs =>
    match cs.takeWhile isNameChar, cs.dropWhile isNameChar with
    | _ :: _, ')' :: rest =>
      match afterPrecision (afterCount (rest.dropWhile Placeholder.isFlag)) with
      | c :: _ => endings.contains c
      | [] => false
    | _, _ => false
  | _ => false

/-- Whether a placeholder with a field stands anywhere in a text. -/
def hasPlaceholder : List Char → Bool
  | [] => false
  | c :: cs => startsWithPlaceholder (c :: cs) || hasPlaceholder cs

/-- Whether a format may be used. -/
def isAcceptable (format : String) : Bool := hasPlaceholder (spelledOut format).toList

theorem isAcceptable_empty : isAcceptable "" = true := by decide

end CentralPath.Journal
