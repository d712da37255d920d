import Mathlib.Algebra.Order.Floor.Div
import WordAssembler.Listing
import WordAssembler.Proofs.Text.Separated
import WordAssembler.Proofs.Word.Conversion

namespace WordAssembler

section

variable {α : Type}

@[simp] theorem pieces_nil (n : Nat) : pieces n ([] : List α) = [] := by
  rw [pieces]

theorem flatten_pieces (n : Nat) (items : List α) : (pieces n items).flatten = items := by
  induction items using pieces.induct n with
  | case1 => rw [pieces_nil, List.flatten_nil]
  | case2 first rest ih =>
    rw [pieces, List.flatten_cons, ih, List.cons_append, List.take_append_drop]

theorem pieces_eq_nil_iff {n : Nat} {items : List α} : pieces n items = [] ↔ items = [] := by
  cases items with
  | nil => simp only [pieces_nil]
  | cons first rest => simp only [pieces, reduceCtorEq]

theorem length_pieces {n : Nat} (positive : 0 < n) (items : List α) :
    (pieces n items).length = items.length ⌈/⌉ n := by
  induction items using pieces.induct n with
  | case1 => rw [pieces_nil, List.length_nil, List.length_nil, zero_ceilDiv]
  | case2 first rest ih =>
    have total : rest.length + 1 + n - 1 = rest.length + n := by omega
    rw [pieces, List.length_cons, ih, List.length_drop, List.length_cons,
      Nat.ceilDiv_eq_add_pred_div, Nat.ceilDiv_eq_add_pred_div, total, Nat.add_div_right _ positive]
    congr 1
    rcases Nat.le_total (n - 1) rest.length with long | short
    · rw [show rest.length - (n - 1) + n - 1 = rest.length by omega]
    · rw [Nat.div_eq_of_lt (by omega), Nat.div_eq_of_lt (by omega)]

theorem length_le_of_mem_pieces {n : Nat} (positive : 0 < n) {items piece : List α}
    (member : piece ∈ pieces n items) : 0 < piece.length ∧ piece.length ≤ n := by
  induction items using pieces.induct n with
  | case1 => simp only [pieces_nil, List.not_mem_nil] at member
  | case2 first rest ih =>
    rw [pieces] at member
    rcases List.mem_cons.mp member with rfl | later
    · rw [List.length_cons, List.length_take]
      omega
    · exact ih later

/-- Only the last piece may be shorter than the others. -/
theorem length_of_mem_dropLast_pieces {n : Nat} (positive : 0 < n) {items piece : List α}
    (member : piece ∈ (pieces n items).dropLast) : piece.length = n := by
  induction items using pieces.induct n with
  | case1 => simp only [pieces_nil, List.dropLast_nil, List.not_mem_nil] at member
  | case2 first rest ih =>
    rw [pieces] at member
    by_cases last : pieces n (rest.drop (n - 1)) = []
    · rw [last] at member
      cases member
    · rw [List.dropLast_cons_of_ne_nil last] at member
      rcases List.mem_cons.mp member with rfl | later
      · have more := List.length_pos_iff.mpr (pieces_eq_nil_iff.not.mp last)
        rw [List.length_drop] at more
        rw [List.length_cons, List.length_take]
        omega
      · exact ih later

theorem pieces_one (items : List α) : pieces 1 items = items.map ([·]) := by
  induction items with
  | nil => rw [pieces_nil, List.map_nil]
  | cons first rest ih =>
    rw [pieces, Nat.sub_self, List.take_zero, List.drop_zero, ih, List.map_cons]

end

/-- A way of writing words in `width` digits of a radix. -/
structure WritesWords (write : Word → List Char) (radix width : Nat) : Prop where
  radix_le : radix ≤ 10
  length : ∀ w, (write w).length = width
  digit : ∀ w, ∀ c ∈ write w, ∃ digit < radix, c = digit.digitChar
  value : ∀ w, Nat.ofDigitChars radix (write w) 0 = w.toNat

theorem writesWords_octal : WritesWords Word.octal 8 6 where
  radix_le := by decide
  length := Word.length_octal
  digit := fun _ _ => mem_paddedDigits (by decide)
  value := Word.ofDigitChars_octal

theorem writesWords_binary : WritesWords Word.binary 2 wordWidth where
  radix_le := by decide
  length := fun w => by
    rw [Word.binary, Bits.digits, List.length_map, List.length_map, List.length_range]
  digit := fun w c member => by
    rcases List.mem_pair.mp (Word.mem_binary member) with rfl | rfl
    · exact ⟨0, by decide, rfl⟩
    · exact ⟨1, by decide, rfl⟩
  value := Word.ofDigitChars_binary

theorem WritesWords.isDigit {write : Word → List Char} {radix width : Nat}
    (writes : WritesWords write radix width) {w : Word} {c : Char} (member : c ∈ write w) :
    c.isDigit := by
  obtain ⟨digit, below, rfl⟩ := writes.digit w c member
  have decimal : ∀ digit < 10, digit.digitChar.isDigit := by decide
  exact decimal digit (Nat.lt_of_lt_of_le below writes.radix_le)

/-- The groups of a text, line by line. -/
def groups (text : List Char) : List (List Char) :=
  (separated '\n' text).flatMap (separated ' ')

/-- A text in which words are written one after another, each as a group of `width` digits of a
radix. All lines but the last have `perLine` groups, so that there are no more lines than needed.
The groups give the numbers of the words again, and with them the words. -/
structure Tabulates (text : List Char) (radix width perLine : Nat) (words : List Word) : Prop where
  lines : (separated '\n' text).length = words.length ⌈/⌉ perLine
  full : ∀ line ∈ (separated '\n' text).dropLast, (separated ' ' line).length = perLine
  last : ∀ line ∈ separated '\n' text, (separated ' ' line).length ≤ perLine
  group : ∀ group ∈ groups text,
    group.length = width ∧ ∀ c ∈ group, ∃ digit < radix, c = digit.digitChar
  numbers : (groups text).map (Nat.ofDigitChars radix · 0) = words.map Word.toNat
  recovered : (∀ w ∈ words, Bits.Canonical w) →
    (groups text).map (fun group => Word.ofInt (Nat.ofDigitChars radix group 0)) = words

/-- Words in lines of groups. -/
def tabulated (write : Word → List Char) (perLine : Nat) (words : List Word) : List Char :=
  List.intercalate ['\n'] ((pieces perLine words).map fun row =>
    List.intercalate [' '] (row.map write))

namespace WritesWords

variable {write : Word → List Char} {radix width perLine : Nat} {words : List Word}
  (writes : WritesWords write radix width) (positive : 0 < perLine) (someWord : words ≠ [])

include writes in
theorem not_mem_of_not_isDigit {mark : Char} (other : mark.isDigit = false) (w : Word) :
    mark ∉ write w := by
  intro member
  have isDigit := writes.isDigit member
  rw [other] at isDigit
  contradiction

include writes positive in
theorem separated_row {row : List Word} (member : row ∈ pieces perLine words) :
    separated ' ' (List.intercalate [' '] (row.map write)) = row.map write := by
  refine separated_intercalate ?_ ?_
  · rw [ne_eq, List.map_eq_nil_iff, ← List.length_eq_zero_iff]
    exact (length_le_of_mem_pieces positive member).1.ne'
  · rw [List.forall_mem_map]
    exact fun w _ => writes.not_mem_of_not_isDigit rfl w

include writes someWord in
theorem separated_tabulated :
    separated '\n' (tabulated write perLine words) =
      (pieces perLine words).map fun row => List.intercalate [' '] (row.map write) := by
  refine separated_intercalate ?_ ?_
  · rwa [ne_eq, List.map_eq_nil_iff, pieces_eq_nil_iff]
  · rw [List.forall_mem_map]
    intro row _ member
    rcases mem_of_mem_intercalate member with isBlank | ⟨group, inRow, inGroup⟩
    · contradiction
    · obtain ⟨w, _, rfl⟩ := List.mem_map.mp inRow
      exact writes.not_mem_of_not_isDigit rfl w inGroup

include writes positive someWord in
theorem groups_tabulated : groups (tabulated write perLine words) = words.map write := by
  have rows : ∀ row ∈ pieces perLine words,
      separated ' ' (List.intercalate [' '] (row.map write)) = row.map write :=
    fun row => writes.separated_row positive
  rw [groups, writes.separated_tabulated someWord, List.flatMap_map, List.flatMap_congr rows,
    ← List.map_flatMap, List.flatMap_id', flatten_pieces]

include writes positive someWord in
theorem tabulates : Tabulates (tabulated write perLine words) radix width perLine words := by
  have lines : separated '\n' (tabulated write perLine words) = _ :=
    writes.separated_tabulated someWord
  have groups := writes.groups_tabulated positive someWord
  refine ⟨?_, ?_, ?_, ?_, ?_, fun canonical => ?_⟩
  · rw [lines, List.length_map, length_pieces positive]
  · rw [lines, ← List.map_dropLast, List.forall_mem_map]
    intro row member
    rw [writes.separated_row positive (List.mem_of_mem_dropLast member), List.length_map,
      length_of_mem_dropLast_pieces positive member]
  · rw [lines, List.forall_mem_map]
    intro row member
    rw [writes.separated_row positive member, List.length_map]
    exact (length_le_of_mem_pieces positive member).2
  · rw [groups, List.forall_mem_map]
    exact fun w _ => ⟨writes.length w, writes.digit w⟩
  · rw [groups, List.map_map]
    exact List.map_congr_left fun w _ => writes.value w
  · rw [groups, List.map_map]
    refine (List.map_congr_left fun w member => ?_).trans (List.map_id _)
    rw [Function.comp_apply, writes.value, Word.ofInt_toNat (canonical w member), id_eq]

end WritesWords

theorem octalDump_eq_tabulated {perLine : Nat} (positive : 0 < perLine) (words : List Word) :
    ∃ text, octalDump words perLine = some text ∧
      text.toList = tabulated Word.octal perLine words := by
  have some : ¬ (perLine : Int) = 0 := by omega
  have nonneg : ¬ (perLine : Int) < 0 := by omega
  refine ⟨_, by rw [octalDump, if_neg some, if_neg nonneg], ?_⟩
  simp only [tabulated, String.toList_intercalate, List.map_map, Function.comp_def,
    Int.toNat_natCast, String.toList_ofList]
  rfl

theorem toList_binaryText (words : List Word) :
    (binaryText words).toList = tabulated Word.binary 1 words := by
  simp only [tabulated, binaryText, pieces_one, String.toList_intercalate, List.map_map,
    Function.comp_def, String.toList_ofList, List.map_cons, List.map_nil, List.intercalate_singleton]
  rfl

/-- Words in octal digits fill line after line, and every word is found again. -/
theorem octalDump_readBack {perLine : Nat} (positive : 0 < perLine) (words : List Word) :
    ∃ text, octalDump words perLine = some text ∧ (words = [] → text = "") ∧
      (words ≠ [] → Tabulates text.toList 8 6 perLine words) := by
  obtain ⟨text, given, written⟩ := octalDump_eq_tabulated positive words
  refine ⟨text, given, ?_, fun someWord => ?_⟩
  · rintro rfl
    rw [tabulated, pieces_nil, List.map_nil, List.intercalate_nil] at written
    exact String.toList_inj.mp written
  · rw [written]
    exact writesWords_octal.tabulates positive someWord

/-- Words in binary digits have a line each. -/
theorem binaryText_readBack (words : List Word) :
    (words = [] → binaryText words = "") ∧
      (words ≠ [] → Tabulates (binaryText words).toList 2 wordWidth 1 words) := by
  refine ⟨?_, fun someWord => ?_⟩
  · rintro rfl
    rfl
  · rw [toList_binaryText]
    exact writesWords_binary.tabulates Nat.one_pos someWord

end WordAssembler
