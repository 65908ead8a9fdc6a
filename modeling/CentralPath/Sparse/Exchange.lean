/-
  Matrices as text. Entries are written one per line as row, column and value; the three compressed
  arrays are written to a file each, one number per line, and read back. `Arrays` is what the three
  files hold, `Matrix.ofArrays` rebuilds a matrix from it. A file that holds a table of numbers in
  place of a list is a `Listing` that no matrix can be rebuilt from.
-/
import CentralPath.Sparse.Dense
import CentralPath.Decimal.Layout
import CentralPath.Decimal.Reading

namespace CentralPath.Sparse

/-- The three compressed arrays. -/
structure Arrays (α : Type) where
  values : List α
  lead : List Int
  trail : List Int
  deriving Repr

namespace Matrix

variable {α : Type} [Scalar α]

/-- The stored arrays up to the used length. -/
def arrays (m : Matrix α) : Arrays α :=
  ⟨m.usedSlots.map Slot.value, m.lead.toList, m.usedSlots.map Slot.index⟩

end Matrix

namespace Arrays

variable {α : Type} [Scalar α]

/-- Whether the arrays belong together: offsets from zero to the number of indices, and as many
values as indices. -/
def consistent (a : Arrays α) : Bool :=
  a.lead.head? == some 0 && a.lead.getLast? == some (a.trail.length : Int) &&
    a.trail.length == a.values.length

/-- The trailing dimension that the indices need. -/
def neededDim (a : Arrays α) : Int :=
  match a.trail with
  | [] => 0
  | t :: ts => ts.foldl max t + 1

/-- Window numbers of the stored entries. -/
def windowNumbers (a : Arrays α) : List Int :=
  (a.lead.zip a.lead.tail).zipIdx.flatMap fun ((low, high), w) =>
    List.replicate (high - low).toNat (w : Int)

/-- The writes that store the entries. -/
def writes (a : Arrays α) (orientation : Orientation) : List (Write α) :=
  (a.windowNumbers.zip (a.trail.zip a.values)).map fun (w, t, v) =>
    match orientation with
    | .byRows => ⟨w, t, v, true⟩
    | .byColumns => ⟨t, w, v, true⟩

end Arrays

/-- A matrix read from arrays: the one before compression, which tells what growing it took, and
the finished one. -/
structure Rebuilt (α : Type) where
  written : Matrix α
  finished : Matrix α
  deriving Repr

/-- The empty matrix that arrays are to be stored in, unless they do not belong together. -/
def Arrays.freshMatrix {α : Type} [Scalar α] (a : Arrays α) (directory : String)
    (orientation : Orientation) (trailingDim : Option Int) : Except (Fault α) (Matrix α) := do
  if !a.consistent then throw (.arraysInconsistent directory)
  let leading : Int := a.lead.length - 1
  let trailing := trailingDim.getD a.neededDim
  let (rows, cols) := match orientation with
    | .byRows => (leading, trailing)
    | .byColumns => (trailing, leading)
  let fresh ← Matrix.create rows cols orientation a.values.length
  if (a.lead.zip a.lead.tail).any fun (low, high) => high < low then throw .offsetsDecrease
  pure fresh

/-- Rebuilds a matrix from arrays. Every stored entry is kept, zeros included; the indices of a
window may come in any order. -/
def Matrix.ofArrays {α : Type} [Scalar α] (a : Arrays α) (directory : String)
    (orientation : Orientation) (trailingDim : Option Int) (lock : Bool) :
    Except (Fault α) (Rebuilt α) := do
  let fresh ← a.freshMatrix directory orientation trailingDim
  match (fresh.setLock true).writeAll (a.writes orientation) with
  | (some e, _) => throw e
  | (none, written) => pure ⟨written, (written.compress.1).setLock lock⟩

/-! ## Listings -/

/-- Numbers as a file holds them: a list, written as one row or one column, or several rows of
several numbers each. -/
inductive Listing (β : Type) where
  | list (numbers : List β)
  | table (rows : List (List β))
  deriving Repr

namespace Listing

variable {β : Type}

/-- All numbers, row by row. -/
def numbers : Listing β → List β
  | list ns => ns
  | table rows => rows.flatten

/-- Whether the numbers form a list. -/
def isList : Listing β → Bool
  | list _ => true
  | table _ => false

end Listing

/-- What the three files hold. -/
structure Listings (α : Type) where
  values : Listing α
  lead : Listing Int
  trail : Listing Int
  deriving Repr

namespace Listings

variable {α : Type}

/-- The numbers of all three files. -/
def arrays (l : Listings α) : Arrays α := ⟨l.values.numbers, l.lead.numbers, l.trail.numbers⟩

/-- Why the first write from a table is refused: a row of indices is no index. A row of values is no
value, but its position is looked at before. -/
def firstFault [Scalar α] (l : Listings α) (fresh : Matrix α) : Fault α :=
  match l.trail.isList, (l.arrays.writes fresh.orientation).head? with
  | true, some w =>
    if (fresh.locateWindow? w.row w.col).isSome then .operandMissing
    else fresh.outside w.row w.col
  | _, _ => .operandMissing

end Listings

/-- Rebuilds a matrix from what the files hold. A table in place of the offsets is refused at once,
one in place of the indices or the values at the first write. -/
def Matrix.ofListings {α : Type} [Scalar α] (l : Listings α) (directory : String)
    (orientation : Orientation) (trailingDim : Option Int) (lock : Bool) :
    Except (Fault α) (Rebuilt α) := do
  if !l.lead.isList then throw .lengthsDiffer
  if l.trail.isList && l.values.isList then
    ofArrays l.arrays directory orientation trailingDim lock
  else
    throw (l.firstFault (← l.arrays.freshMatrix directory orientation trailingDim))

/-! ## Text -/

/-- The names of the three files. -/
def valuesFile : String := "a.dat"
def leadFile : String := "ia.dat"
def trailFile : String := "ja.dat"

/-- One number per line. -/
def columnText (numbers : List String) : String :=
  String.join (numbers.map (· ++ "\n"))

/-- The largest number of digits that can be asked for. -/
def largestPrecision : Int := 2147483647

/-- Refuses a number of digits that no value can be written with, if there are values to write. -/
def checkPrecision (precision : Int) (values : List Float) : Except (Fault Float) Unit :=
  if values.isEmpty ∨ (0 ≤ precision ∧ precision ≤ largestPrecision) then .ok ()
  else .error .precisionUnfit

/-- The live entries as lines of row, column and value with `precision` digits after the point. -/
def Matrix.tripletText (m : Matrix Float) (precision : Int) : Except (Fault Float) String := do
  let entries ← m.storedEntries
  checkPrecision precision (entries.map Entry.value)
  pure <| String.join <| entries.map fun e =>
    s!"{e.row} {e.col} {Decimal.renderScientific precision.toNat e.value}\n"

/-- The texts of the three files, values first, with values written by `print`. -/
def Arrays.columns {α : Type} (print : α → String) (a : Arrays α) : String × String × String :=
  (columnText (a.values.map print), columnText (a.lead.map toString),
    columnText (a.trail.map toString))

/-- The texts of the three files with `precision` digits after the point of a value. -/
def Arrays.texts (a : Arrays Float) (precision : Int) :
    Except (Fault Float) (String × String × String) := do
  checkPrecision precision a.values
  pure (a.columns (Decimal.renderScientific precision.toNat))

/-- The lines of a text. -/
def lines (text : String) : List (List Char) :=
  text.toList.splitOnP fun c => c == '\n' || c == '\r'

/-- The words of a line before any comment. -/
def words (line : List Char) : List (List Char) := Text.fields (line.takeWhile (· ≠ '#'))

/-- Reads the numbers of a text. Lines without words count for nothing, the others have as many words
each as the first. -/
def readListing {β : Type} (read? : List Char → Option β) (text : String) :
    Except (Fault Float) (Listing β) :=
  let rows := (lines text).map words |>.filter (!·.isEmpty)
  match rows.mapM (·.mapM read?) with
  | none => .error .numberUnreadable
  | some rows =>
    if rows.length ≤ 1 ∨ rows.all (·.length == 1) then .ok (.list rows.flatten)
    else if rows.tail.all fun r => some r.length == rows.head?.map List.length then
      .ok (.table rows)
    else .error .numberUnreadable

/-- An integer that a machine word of 64 bits holds. -/
def readIndex? (cs : List Char) : Option Int :=
  (Decimal.readInteger? cs).filter fun n => decide (-indexBound ≤ n ∧ n < indexBound)
where
  indexBound : Int := Nat.pow 2 63

/-- Reads the three files of a directory; `file?` gives the text of a file that is there and `read?`
the value of a word. -/
def readColumns {α : Type} (read? : List Char → Option α) (directory : String)
    (file? : String → Option String) : Except (Fault Float) (Listings α) := do
  let load (name : String) : Except (Fault Float) String :=
    match file? name with
    | some text => pure text
    | none => throw (.fileMissing s!"{directory}/{name}")
  let values ← load valuesFile
  let lead ← load leadFile
  let trail ← load trailFile
  pure
    { values := ← readListing read? values
      lead := ← readListing readIndex? lead
      trail := ← readListing readIndex? trail }

/-- Reads the three files of a directory with values of double precision. -/
def readListings (directory : String) (file? : String → Option String) :
    Except (Fault Float) (Listings Float) :=
  readColumns Decimal.readDouble? directory file?

end CentralPath.Sparse
