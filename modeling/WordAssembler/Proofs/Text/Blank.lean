import Mathlib.Data.List.DropRight
import WordAssembler.Text.Split

namespace WordAssembler

theorem isDigit_range {c : Char} (digit : c.isDigit) : 48 ≤ c.toNat ∧ c.toNat ≤ 57 := by
  simpa [Char.isDigit, UInt32.le_iff_toNat_le] using digit

theorem isUpper_range {c : Char} (upper : c.isUpper) : 65 ≤ c.toNat ∧ c.toNat ≤ 90 := by
  obtain ⟨low, high⟩ : 'A'.val ≤ c.val ∧ c.val ≤ 'Z'.val := of_decide_eq_true upper
  exact ⟨UInt32.le_iff_toNat_le.mp low, UInt32.le_iff_toNat_le.mp high⟩

theorem isLower_range {c : Char} (lower : c.isLower) : 97 ≤ c.toNat ∧ c.toNat ≤ 122 := by
  obtain ⟨low, high⟩ := Bool.and_eq_true_iff.mp lower
  have atLeast : 'a'.val ≤ c.val := of_decide_eq_true low
  have atMost : c.val ≤ 'z'.val := of_decide_eq_true high
  exact ⟨UInt32.le_iff_toNat_le.mp atLeast, UInt32.le_iff_toNat_le.mp atMost⟩

theorem isBlank_of_isDigit {c : Char} (digit : c.isDigit) : isBlank c = false := by
  have range := isDigit_range digit
  simp only [isBlank, Bool.or_eq_false_iff, Bool.and_eq_false_iff, decide_eq_false_iff_not,
    beq_eq_false_iff_ne]
  omega

theorem trimStart_of_head {s : List Char} (head : ∀ c ∈ s.head?, isBlank c = false) :
    trimStart s = s := by
  cases s with
  | nil => rfl
  | cons c rest =>
    have first : isBlank c = false := head c rfl
    rw [trimStart, List.dropWhile_cons, first]
    rfl

theorem trimEnd_of_last {s : List Char} (last : ∀ c ∈ s.getLast?, isBlank c = false) :
    trimEnd s = s := by
  have reversed : trimStart s.reverse = s.reverse :=
    trimStart_of_head fun c atHead => last c (by rwa [List.head?_reverse] at atHead)
  rw [trimStart] at reversed
  rw [trimEnd, reversed, List.reverse_reverse]

theorem trim_of_no_blanks {s : List Char} (solid : ∀ c ∈ s, isBlank c = false) : trim s = s := by
  have start : trimStart s = s :=
    trimStart_of_head fun c atHead => solid c (List.mem_of_mem_head? atHead)
  rw [trim, start]
  exact trimEnd_of_last fun c atLast => solid c (List.mem_of_getLast? atLast)

/-- Only blanks are trimmed. -/
theorem exists_eq_trimEnd_append (s : List Char) :
    ∃ blanks, s = trimEnd s ++ blanks ∧ ∀ c ∈ blanks, isBlank c :=
  ⟨s.rtakeWhile isBlank, List.rdropWhile_append_rtakeWhile.symm, fun _ => List.mem_rtakeWhile_imp⟩

theorem trimEnd_eq_nil_iff {s : List Char} : trimEnd s = [] ↔ ∀ c ∈ s, isBlank c :=
  List.rdropWhile_eq_nil_iff

theorem trimEnd_append_blanks {blanks : List Char} (blank : ∀ c ∈ blanks, isBlank c)
    (s : List Char) : trimEnd (s ++ blanks) = trimEnd s := by
  have reversed : ∀ c ∈ blanks.reverse, isBlank c := fun c member =>
    blank c (List.mem_reverse.mp member)
  rw [trimEnd, List.reverse_append, List.dropWhile_append_of_pos reversed, ← trimEnd]

/-- A text that is not blank keeps all that stands before it. -/
theorem trimEnd_append_of_ne_nil {t : List Char} (someText : trimEnd t ≠ []) (s : List Char) :
    trimEnd (s ++ t) = s ++ trimEnd t := by
  have kept : ¬ (t.reverse.dropWhile isBlank).isEmpty := by
    rw [List.isEmpty_iff]
    exact fun none => someText (List.reverse_eq_nil_iff.mpr none)
  rw [trimEnd, List.reverse_append, List.dropWhile_append, if_neg kept, List.reverse_append,
    List.reverse_reverse, ← trimEnd]

theorem trimStart_blanks_append {blanks : List Char} (blank : ∀ c ∈ blanks, isBlank c)
    (s : List Char) : trimStart (blanks ++ s) = trimStart s :=
  List.dropWhile_append_of_pos blank

theorem trim_append_blanks {blanks : List Char} (blank : ∀ c ∈ blanks, isBlank c)
    (s : List Char) : trim (s ++ blanks) = trim s := by
  by_cases solid : trimStart s = []
  · have all : ∀ c ∈ s, isBlank c := List.dropWhile_eq_nil_iff.mp solid
    have none : trimStart blanks = [] := List.dropWhile_eq_nil_iff.mpr blank
    rw [trim, trim, trimStart_blanks_append all, none, solid]
  · have kept : trimStart (s ++ blanks) = trimStart s ++ blanks := by
      rw [trimStart, List.dropWhile_append, if_neg (by rwa [List.isEmpty_iff]), ← trimStart]
    rw [trim, kept, trimEnd_append_blanks blank, ← trim]

theorem trim_between_blanks {before after : List Char} (blank : ∀ c ∈ before, isBlank c)
    (blank' : ∀ c ∈ after, isBlank c) (s : List Char) : trim (before ++ s ++ after) = trim s := by
  rw [trim_append_blanks blank', trim, trimStart_blanks_append blank, ← trim]

/-- Only blanks are trimmed, on both sides. -/
theorem exists_eq_append_trim (s : List Char) :
    ∃ before after, s = before ++ trim s ++ after ∧ (∀ c ∈ before, isBlank c) ∧
      ∀ c ∈ after, isBlank c := by
  obtain ⟨after, split, blank⟩ := exists_eq_trimEnd_append (trimStart s)
  refine ⟨s.takeWhile isBlank, after, ?_, fun c => List.mem_takeWhile_imp, blank⟩
  rw [List.append_assoc, trim, ← split, trimStart, List.takeWhile_append_dropWhile]

end WordAssembler
