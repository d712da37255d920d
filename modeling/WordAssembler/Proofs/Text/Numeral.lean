import Mathlib.Data.List.Basic
import WordAssembler.Proofs.Text.Blank
import WordAssembler.Text.Numeral
import WordAssembler.Text.Numeral

namespace WordAssembler

/-- At most one sign, and then one or more digits of any script. -/
def IsNumeral (s : List Char) : Prop :=
  (splitSign s).2 ≠ [] ∧ ∀ c ∈ (splitSign s).2, (digitValue? c).isSome

instance (s : List Char) : Decidable (IsNumeral s) :=
  inferInstanceAs (Decidable (_ ∧ _))

/-- The length of a numeral without its sign. -/
def digitCount (s : List Char) : Nat :=
  (splitSign s).2.length

/-- The number that a numeral writes, however long it is. -/
def numeralValue (s : List Char) : Int :=
  withSign (splitSign s).1 (ofDigitValues 10 ((splitSign s).2.filterMap digitValue?))

theorem ofDigitValues_append_singleton (radix : Nat) (digits : List Nat) (digit : Nat) :
    ofDigitValues radix (digits ++ [digit]) = radix * ofDigitValues radix digits + digit := by
  simp only [ofDigitValues, List.foldl_append, List.foldl_cons, List.foldl_nil]

theorem mapM_eq_some_filterMap {α β : Type} {f : α → Option β} {items : List α}
    (all : ∀ i ∈ items, (f i).isSome) : items.mapM f = some (items.filterMap f) := by
  induction items with
  | nil => rfl
  | cons first rest ih =>
    obtain ⟨value, found⟩ := Option.isSome_iff_exists.mp (all first (List.mem_cons_self ..))
    have others := ih fun i member => all i (List.mem_cons_of_mem _ member)
    rw [List.mapM_cons, found, others, List.filterMap_cons_some found]
    rfl

theorem isSome_of_mapM_eq_some {α β : Type} {f : α → Option β} {items : List α}
    {values : List β} (found : items.mapM f = some values) : ∀ i ∈ items, (f i).isSome := by
  induction items generalizing values with
  | nil => simp
  | cons first rest ih =>
    rw [List.mapM_cons] at found
    obtain ⟨value, atFirst, later⟩ := Option.bind_eq_some_iff.mp found
    obtain ⟨others, atRest, _⟩ := Option.bind_eq_some_iff.mp later
    rw [List.forall_mem_cons]
    exact ⟨Option.isSome_iff_exists.mpr ⟨value, atFirst⟩, ih atRest⟩

theorem length_filterMap_of_isSome {α β : Type} {f : α → Option β} {items : List α}
    (all : ∀ i ∈ items, (f i).isSome) : (items.filterMap f).length = items.length := by
  rw [List.length_filterMap_eq_countP, List.countP_eq_length]
  exact all

theorem readInteger_of_isNumeral {s : List Char} (numeral : IsNumeral s) :
    readInteger s =
      if maxDigits < digitCount s then .error (.tooManyDigits (digitCount s))
      else .ok (numeralValue s) := by
  have digits := mapM_eq_some_filterMap numeral.2
  have count := length_filterMap_of_isSome numeral.2
  have someDigit : (splitSign s).2.filterMap digitValue? ≠ [] := by
    intro none
    rw [none] at count
    exact numeral.1 (List.eq_nil_of_length_eq_zero count.symm)
  -- That there is some digit sets the last case of the reader apart from the one before it.
  simp only [readInteger, digits, digitCount, numeralValue, count]
  rfl

theorem readInteger_of_not_isNumeral {s : List Char} (other : ¬ IsNumeral s) :
    readInteger s = .error .malformed := by
  cases found : (splitSign s).2.mapM digitValue? with
  | none => simp only [readInteger, found]
  | some values =>
    have all := isSome_of_mapM_eq_some found
    have empty : (splitSign s).2 = [] := Classical.byContradiction fun someDigit =>
      other ⟨someDigit, all⟩
    simp only [readInteger, empty, List.mapM_nil]
    rfl

/-- Only a numeral has too many digits to be read. -/
theorem readInteger_eq_tooManyDigits_iff {s : List Char} {count : Nat} :
    readInteger s = .error (.tooManyDigits count) ↔
      IsNumeral s ∧ digitCount s = count ∧ maxDigits < count := by
  by_cases numeral : IsNumeral s
  · rw [readInteger_of_isNumeral numeral]
    split
    · rename_i long
      simp only [Except.error.injEq, NumeralFault.tooManyDigits.injEq, numeral, true_and]
      exact ⟨fun same => ⟨same, same ▸ long⟩, fun parts => parts.1⟩
    · rename_i short
      simp only [reduceCtorEq, numeral, true_and, false_iff]
      rintro ⟨rfl, long⟩
      exact short long
  · rw [readInteger_of_not_isNumeral numeral]
    simp [numeral]

theorem digitValue?_of_isDigit {c : Char} (digit : c.isDigit) :
    digitValue? c = some (c.toNat - 48) := by
  have range := isDigit_range digit
  have first : (decide (0x30 ≤ c.toNat) && decide (c.toNat < 0x30 + 10)) = true := by
    simp only [Bool.and_eq_true, decide_eq_true_eq]
    omega
  rw [digitValue?, scriptZeros, List.find?_cons, first]
  rfl

/-- The zeros of the scripts keep clear of the blanks by a whole row of digits. -/
theorem scriptZeros_apart : ∀ z ∈ scriptZeros,
    z = 0x30 ∨ 0x660 ≤ z ∧ z ≤ 0x1090 ∨ 0x17e0 ≤ z ∧ z ≤ 0x1c50 ∨ 0xa620 ≤ z := by
  decide

/-- No digit of any script is blank. -/
theorem isBlank_of_digitValue? {c : Char} {d : Nat} (digit : digitValue? c = some d) :
    isBlank c = false := by
  obtain ⟨z, found, _⟩ := Option.map_eq_some_iff.mp digit
  have within := List.find?_some found
  have apart := scriptZeros_apart z (List.mem_of_find?_eq_some found)
  simp only [Bool.and_eq_true, decide_eq_true_eq] at within
  simp only [isBlank, Bool.or_eq_false_iff, Bool.and_eq_false_iff, decide_eq_false_iff_not,
    beq_eq_false_iff_ne]
  omega

theorem splitSign_of_not_mem {s : List Char} (minus : '-' ∉ s) (plus : '+' ∉ s) :
    splitSign s = (false, s) := by
  unfold splitSign
  split
  · exact absurd (List.mem_cons_self ..) minus
  · exact absurd (List.mem_cons_self ..) plus
  · rfl

theorem splitSign_of_digits {s : List Char} (digits : ∀ c ∈ s, (digitValue? c).isSome) :
    splitSign s = (false, s) :=
  splitSign_of_not_mem (fun member => absurd (digits '-' member) (by decide))
    fun member => absurd (digits '+' member) (by decide)

theorem splitSign_of_isDigit {s : List Char} (digits : ∀ c ∈ s, c.isDigit) :
    splitSign s = (false, s) := by
  refine splitSign_of_digits fun c member => ?_
  rw [digitValue?_of_isDigit (digits c member)]
  rfl

theorem isDigit_of_mem_toDigits {n : Nat} {c : Char} (member : c ∈ Nat.toDigits 10 n) :
    c.isDigit :=
  Nat.isDigit_of_mem_toDigits (by decide) (by decide) member

/-- A number that is written without leading zeros is read back. -/
theorem readInteger_toDigits {n : Nat} (short : (Nat.toDigits 10 n).length ≤ maxDigits) :
    readInteger (Nat.toDigits 10 n) = .ok n := by
  have digits : ∀ c ∈ Nat.toDigits 10 n, c.isDigit := fun c member =>
    isDigit_of_mem_toDigits member
  have body := splitSign_of_isDigit digits
  have numeral : IsNumeral (Nat.toDigits 10 n) := by
    rw [IsNumeral, body]
    refine ⟨Nat.toDigits_ne_nil, fun c member => ?_⟩
    rw [digitValue?_of_isDigit (digits c member)]
    rfl
  have values : (Nat.toDigits 10 n).filterMap digitValue? =
      (Nat.toDigits 10 n).map fun c => c.toNat - 48 := by
    rw [← List.filterMap_eq_map]
    exact List.filterMap_congr fun c member => digitValue?_of_isDigit (digits c member)
  have value : ofDigitValues 10 ((Nat.toDigits 10 n).map fun c => c.toNat - 48) = n := by
    rw [ofDigitValues, List.foldl_map]
    exact Nat.ofDigitChars_ten_toDigits
  rw [readInteger_of_isNumeral numeral, digitCount, numeralValue, body, values, value,
    if_neg (Nat.not_lt.mpr short)]
  rfl

theorem mem_toDigits {radix n : Nat} {c : Char} (large : 1 < radix)
    (member : c ∈ Nat.toDigits radix n) : ∃ digit < radix, c = digit.digitChar := by
  induction n using Nat.strongRecOn with
  | ind n ih =>
    rw [Nat.toDigits_eq_if large] at member
    split at member
    · rename_i below
      exact ⟨n, below, List.mem_singleton.mp member⟩
    · rename_i several
      have fewer : n / radix < n := Nat.div_lt_self (by omega) large
      rcases List.mem_append.mp member with before | last
      · exact ih (n / radix) fewer before
      · exact ⟨n % radix, Nat.mod_lt n (by omega), List.mem_singleton.mp last⟩

/-- The zeros before the digits do not count when they are read back. -/
theorem ofDigitChars_paddedDigits {radix : Nat} (width n : Nat) (large : 1 < radix)
    (small : radix ≤ 10) :
    Nat.ofDigitChars radix (paddedDigits radix width n) 0 = n := by
  rw [paddedDigits, padStart, Nat.ofDigitChars_append, Nat.ofDigitChars_replicate_zero,
    Nat.mul_zero, Nat.ofDigitChars_toDigits large small]

theorem paddedDigits_inj {radix width m n : Nat} (large : 1 < radix) (small : radix ≤ 10) :
    paddedDigits radix width m = paddedDigits radix width n ↔ m = n := by
  constructor
  · intro same
    have first := ofDigitChars_paddedDigits width m large small
    have second := ofDigitChars_paddedDigits width n large small
    rw [← first, same, second]
  · exact congrArg _

theorem mem_paddedDigits {radix width n : Nat} {c : Char} (large : 1 < radix)
    (member : c ∈ paddedDigits radix width n) : ∃ digit < radix, c = digit.digitChar := by
  rcases List.mem_append.mp member with filled | written
  · exact ⟨0, by omega, List.eq_of_mem_replicate filled⟩
  · exact mem_toDigits large written

theorem length_paddedDigits {radix width n : Nat} (large : 1 < radix) (positive : 0 < width)
    (room : n < radix.pow width) : (paddedDigits radix width n).length = width := by
  have short := (Nat.length_toDigits_le_iff large positive).mpr room
  rw [paddedDigits, length_padStart]
  omega

end WordAssembler
