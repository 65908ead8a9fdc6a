/-
  Columns of numbers, one to a line. A column of words that read back, each as some number, reads
  back as the list of these numbers (`readListing_columnText`), also where there is none or just
  one. Whole numbers of a machine word are written as such words (`readsBack_toString`). How other
  numbers are written is left open.
-/
import CentralPath.Sparse.Exchange
import Mathlib

namespace CentralPath

namespace Text

/-- A word without blanks is its only field. -/
theorem fields_of_word {word : List Char} (hne : word ≠ [])
    (h : ∀ c ∈ word, isBlank c = false) : fields word = [word] := by
  obtain ⟨c, cs, rfl⟩ := List.exists_cons_of_ne_nil hne
  have hkeep : ∀ d ∈ cs, (!isBlank d) = true := fun d hd => by
    rw [h d (List.mem_cons_of_mem _ hd), Bool.not_false]
  rw [fields, h c (List.mem_cons_self ..), if_neg (by decide), List.takeWhile_eq_self_iff.mpr hkeep,
    List.dropWhile_eq_nil_iff.mpr hkeep, fields]

theorem toNat_of_isDigit {c : Char} (h : c.isDigit = true) : 48 ≤ c.toNat ∧ c.toNat ≤ 57 := by
  rw [Char.isDigit, Bool.and_eq_true, decide_eq_true_eq, decide_eq_true_eq] at h
  exact ⟨UInt32.le_iff_toNat_le.mp h.1, UInt32.le_iff_toNat_le.mp h.2⟩

theorem isBlank_of_isDigit {c : Char} (h : c.isDigit = true) : isBlank c = false := by
  obtain ⟨hlow, hhigh⟩ := toNat_of_isDigit h
  simp only [isBlank, blankRanges, List.any_cons, List.any_nil, Bool.or_false,
    Bool.or_eq_false_iff, Bool.and_eq_false_iff, decide_eq_false_iff_not]
  omega

end Text

namespace Decimal

/-- Digits carry no sign. -/
theorem splitSign_of_digits {cs : List Char} (h : ∀ c ∈ cs, c.isDigit = true) :
    splitSign cs = (false, cs) := by
  cases cs with
  | nil => rfl
  | cons c cs =>
    have hdigit := h c (List.mem_cons_self ..)
    have hminus : c ≠ '-' := by rintro rfl; exact absurd hdigit (by decide)
    have hplus : c ≠ '+' := by rintro rfl; exact absurd hdigit (by decide)
    rw [splitSign]
    · rintro _ ⟨rfl, -⟩; exact hminus rfl
    · rintro _ ⟨rfl, -⟩; exact hplus rfl

/-- The digits of a number read as the number. -/
theorem readInteger?_toDigits (k : Nat) : readInteger? (Nat.toDigits 10 k) = some (k : Int) := by
  have hdigits : ∀ c ∈ Nat.toDigits 10 k, c.isDigit = true := fun c hc =>
    Nat.isDigit_of_mem_toDigits (by decide) (by decide) hc
  have hvalue : digitsValue (Nat.toDigits 10 k) = k := by
    rw [digitsValue, ← Nat.ofDigitChars_eq_foldl, Nat.ofDigitChars_ten_toDigits]
  have hfit : ((Nat.toDigits 10 k).isEmpty || !(Nat.toDigits 10 k).all Char.isDigit) = false := by
    rw [List.all_eq_true.mpr hdigits, Bool.not_true, Bool.or_false]
    exact List.isEmpty_eq_false_iff.mpr Nat.toDigits_ne_nil
  rw [readInteger?, splitSign_of_digits hdigits]
  dsimp only
  rw [hfit, hvalue]
  rfl

end Decimal

namespace Sparse

variable {β : Type}

/-- The text is a word, with no comment in it, that reads as the given number. -/
structure ReadsBack (read? : List Char → Option β) (text : String) (b : β) : Prop where
  nonempty : text.toList ≠ []
  word : ∀ c ∈ text.toList, Text.isBlank c = false ∧ c ≠ '#'
  read : read? text.toList = some b

theorem ReadsBack.words_eq {read? : List Char → Option β} {text : String} {b : β}
    (h : ReadsBack read? text b) : words text.toList = [text.toList] := by
  have hall : ∀ c ∈ text.toList, decide (c ≠ '#') = true := fun c hc =>
    decide_eq_true (h.word c hc).2
  rw [words, List.takeWhile_eq_self_iff.mpr hall]
  exact Text.fields_of_word h.nonempty fun c hc => (h.word c hc).1

theorem ReadsBack.map {γ : Type} {read? : List Char → Option β} {text : String} {b : β}
    (h : ReadsBack read? text b) (f : β → γ) :
    ReadsBack (fun cs => (read? cs).map f) text (f b) :=
  ⟨h.nonempty, h.word, by rw [h.read, Option.map_some]⟩

/-- The lines of a column are its words, and an empty one behind the last. -/
theorem lines_columnText {texts : List String}
    (h : ∀ text ∈ texts, ∀ c ∈ text.toList, Text.isBlank c = false) :
    lines (columnText texts) = texts.map String.toList ++ [[]] := by
  induction texts with
  | nil => rfl
  | cons text rest ih =>
    have hbreak : ∀ c ∈ text.toList, (c == '\n' || c == '\r') = false := by
      intro c hc
      have hblank := h text (List.mem_cons_self ..) c hc
      rw [Bool.or_eq_false_iff, beq_eq_false_iff_ne, beq_eq_false_iff_ne]
      constructor <;> rintro rfl <;> exact absurd hblank (by decide)
    have hsplit : (columnText (text :: rest)).toList =
        text.toList ++ '\n' :: (columnText rest).toList := by
      rw [columnText, List.map_cons, String.join_cons, String.toList_append, String.toList_append,
        List.append_assoc]
      rfl
    rw [lines, hsplit, List.splitOnP_append_cons_of_forall_mem hbreak '\n' rfl, List.map_cons,
      List.cons_append, ← ih fun t ht => h t (List.mem_cons_of_mem _ ht)]
    rfl

/-- The rows of a column hold one word each. -/
theorem rows_columnText {γ : Type} {read? : List Char → Option β} {print : γ → String}
    {q : γ → β} {numbers : List γ} (h : ∀ n ∈ numbers, ReadsBack read? (print n) (q n)) :
    ((lines (columnText (numbers.map print))).map words).filter (!·.isEmpty) =
      numbers.map fun n => [(print n).toList] := by
  have hblank : ∀ text ∈ numbers.map print, ∀ c ∈ text.toList, Text.isBlank c = false := by
    intro text htext c hc
    obtain ⟨n, hn, rfl⟩ := List.mem_map.mp htext
    exact ((h n hn).word c hc).1
  have hwords : ((numbers.map print).map String.toList).map words =
      numbers.map fun n => [(print n).toList] := by
    rw [List.map_map, List.map_map]
    exact List.map_congr_left fun n hn => (h n hn).words_eq
  have hlast : words [] = [] := by rw [words, List.takeWhile_nil, Text.fields]
  rw [lines_columnText hblank, List.map_append, hwords, List.filter_append, List.map_singleton,
    hlast, List.filter_eq_self.mpr]
  · exact List.append_nil _
  · intro row hrow
    obtain ⟨n, -, rfl⟩ := List.mem_map.mp hrow
    rfl

/-- A column of numbers reads back as their list. -/
theorem readListing_columnText {γ : Type} {read? : List Char → Option β} {print : γ → String}
    {q : γ → β} {numbers : List γ} (h : ∀ n ∈ numbers, ReadsBack read? (print n) (q n)) :
    readListing read? (columnText (numbers.map print)) = .ok (.list (numbers.map q)) := by
  have hread : (numbers.map fun n => [(print n).toList]).mapM (·.mapM read?) =
      some (numbers.map fun n => [q n]) := by
    induction numbers with
    | nil => rfl
    | cons n ns ih =>
      have hhead : [(print n).toList].mapM read? = some [q n] := by
        rw [List.mapM_cons, (h n (List.mem_cons_self ..)).read, List.mapM_nil]
        rfl
      rw [List.map_cons, List.map_cons, List.mapM_cons, hhead,
        ih fun n' hn' => h n' (List.mem_cons_of_mem _ hn')]
      rfl
  have hsingle : (numbers.map fun n => [q n]).all (·.length == 1) = true := by
    rw [List.all_map, List.all_eq_true]
    exact fun n _ => rfl
  have hflat : (numbers.map fun n => [q n]).flatten = numbers.map q := by
    rw [← List.flatMap_def]
    exact List.flatMap_pure_eq_map q numbers
  rw [readListing, rows_columnText h, hread]
  dsimp only
  rw [if_pos (Or.inr hsingle), hflat]

/-- Whole numbers that a machine word holds are written as words that read back. -/
theorem readsBack_toString {n : Int} (h : 0 ≤ n) (hn : n < Nat.pow 2 63) :
    ReadsBack readIndex? (toString n) n := by
  obtain ⟨k, rfl⟩ := Int.eq_ofNat_of_zero_le h
  have htext : (toString (k : Int)).toList = Nat.toDigits 10 k := Nat.toList_repr
  refine ⟨?_, ?_, ?_⟩
  · rw [htext]
    exact Nat.toDigits_ne_nil
  · rw [htext]
    intro c hc
    have hdigit : c.isDigit = true := Nat.isDigit_of_mem_toDigits (by decide) (by decide) hc
    refine ⟨Text.isBlank_of_isDigit hdigit, ?_⟩
    rintro rfl
    exact absurd hdigit (by decide)
  · rw [htext, readIndex?, Decimal.readInteger?_toDigits, Option.filter_some]
    refine if_pos (decide_eq_true ⟨?_, hn⟩)
    rw [readIndex?.indexBound]
    omega

/-! ## Directories -/

variable {γ : Type} {a : Arrays γ} {print : γ → String} {file? : String → Option String}

/-- A directory has the three files of the arrays. -/
structure Arrays.Exported (a : Arrays γ) (print : γ → String) (file? : String → Option String) :
    Prop where
  values : file? valuesFile = some (a.columns print).1
  lead : file? leadFile = some (a.columns print).2.1
  trail : file? trailFile = some (a.columns print).2.2

/-- The files of arrays whose numbers read back are three lists. -/
theorem Arrays.Exported.readColumns_eq {read? : List Char → Option β} {q : γ → β}
    (h : a.Exported print file?) (hvalues : ∀ v ∈ a.values, ReadsBack read? (print v) (q v))
    (hindices : ∀ n ∈ a.lead ++ a.trail, ReadsBack readIndex? (toString n) n)
    (directory : String) : readColumns read? directory file? =
      .ok ⟨.list (a.values.map q), .list a.lead, .list a.trail⟩ := by
  have hvalue := readListing_columnText hvalues
  have hlead := readListing_columnText (q := id) fun n hn =>
    hindices n (List.mem_append_left _ hn)
  have htrail := readListing_columnText (q := id) fun n hn =>
    hindices n (List.mem_append_right _ hn)
  rw [List.map_id] at hlead htrail
  simp only [readColumns, h.values, h.lead, h.trail, Arrays.columns, pure_bind, hvalue, hlead,
    htrail]
  rfl

end Sparse

end CentralPath
