import WordAssembler.Proofs.Text.Numeral

namespace WordAssembler

/-- The radices in which an integer literal can be written. -/
inductive Radix
  | binary
  | octal
  | decimal
  | hexadecimal
  deriving DecidableEq, Repr

namespace Radix

/-- How many digits a radix has. -/
def base : Radix → Nat
  | .binary => 2
  | .octal => 8
  | .decimal => 10
  | .hexadecimal => 16

/-- What announces a radix before the digits. Only the decimal radix goes without. -/
def mark : Radix → List Char
  | .binary => ['0', 'b']
  | .octal => ['0', 'o']
  | .decimal => []
  | .hexadecimal => ['0', 'x']

/-- The literal of a number, in small letters and without leading zeros. -/
def literal (r : Radix) (n : Nat) : List Char :=
  r.mark ++ Nat.toDigits r.base n

theorem one_lt_base (r : Radix) : 1 < r.base := by
  cases r <;> decide

theorem base_le (r : Radix) : r.base ≤ 16 := by
  cases r <;> decide

theorem base_eq_ten_iff {r : Radix} : r.base = 10 ↔ r = .decimal := by
  cases r <;> decide

end Radix

/-- Letters and digits of basic Latin are neither blanks nor signs nor underscores. -/
theorem isAlphanum_range {c : Char} (plain : c.isAlphanum) :
    48 ≤ c.toNat ∧ c.toNat < 127 ∧ c.toNat ≠ 95 := by
  rcases Bool.or_eq_true_iff.mp plain with letter | digit
  · rcases Bool.or_eq_true_iff.mp letter with upper | lower
    · have range := isUpper_range upper
      omega
    · have range := isLower_range lower
      omega
  · have range := isDigit_range digit
    omega

theorem isAlphanum_digitChar : ∀ digit < 16, digit.digitChar.isAlphanum := by
  decide

theorem radixDigit?_digitChar :
    ∀ radix ≤ 16, ∀ digit < radix, radixDigit? radix digit.digitChar = some digit := by
  decide

/-- A number that can be written has no more decimal digits than are read. -/
theorem length_digits_of_writable {n : Nat} (writable : Writable n) :
    ((Nat.toDigits 10 n).filterMap (radixDigit? 10)).length ≤ maxDigits := by
  have bounded (most : Nat) (positive : 0 < most) (below : n < Nat.pow 10 most) :
      (Nat.toDigits 10 n).length ≤ most :=
    (Nat.length_toDigits_le_iff (by decide) positive).mpr below
  exact (List.length_filterMap_le _ _).trans (bounded maxDigits (by decide) writable)

section

variable {radix : Nat}

theorem filterMap_toDigits (large : 1 < radix) (small : radix ≤ 16) (n : Nat) :
    (Nat.toDigits radix n).filterMap (radixDigit? radix) =
      if n < radix then [n]
      else (Nat.toDigits radix (n / radix)).filterMap (radixDigit? radix) ++ [n % radix] := by
  rw [Nat.toDigits_eq_if large]
  split
  · rename_i below
    rw [List.filterMap_cons_some (radixDigit?_digitChar radix small n below), List.filterMap_nil]
  · have last := radixDigit?_digitChar radix small (n % radix) (Nat.mod_lt n (by omega))
    rw [List.filterMap_append, List.filterMap_cons_some last, List.filterMap_nil]

theorem filterMap_toDigits_ne_nil (large : 1 < radix) (small : radix ≤ 16) (n : Nat) :
    (Nat.toDigits radix n).filterMap (radixDigit? radix) ≠ [] := by
  rw [filterMap_toDigits large small]
  split
  · exact List.cons_ne_nil _ _
  · exact List.append_ne_nil_of_right_ne_nil _ (List.cons_ne_nil _ _)

/-- Digits of any radix are read back to the number they write. -/
theorem ofDigitValues_toDigits (large : 1 < radix) (small : radix ≤ 16) (n : Nat) :
    ofDigitValues radix ((Nat.toDigits radix n).filterMap (radixDigit? radix)) = n := by
  -- The last digit is split off, as it is when the number is written.
  induction n using Nat.strongRecOn with
  | ind n ih =>
    rw [filterMap_toDigits large small]
    split
    · exact Nat.zero_add n
    · rename_i several
      have fewer : n / radix < n := Nat.div_lt_self (by omega) large
      rw [ofDigitValues_append_singleton, ih (n / radix) fewer, Nat.div_add_mod]

/-- Only zero is written with a zero in front. -/
theorem head?_filterMap_toDigits (large : 1 < radix) (small : radix ≤ 16) {n : Nat}
    (positive : n ≠ 0) :
    ((Nat.toDigits radix n).filterMap (radixDigit? radix)).head? ≠ some 0 := by
  induction n using Nat.strongRecOn with
  | ind n ih =>
    rw [filterMap_toDigits large small]
    split
    · rw [List.head?_cons]
      exact fun same => positive (Option.some.inj same)
    · rename_i several
      have fewer : n / radix < n := Nat.div_lt_self (by omega) large
      have front := ih (n / radix) fewer (Nat.div_ne_zero_iff.mpr (by omega))
      rwa [List.head?_append_of_ne_nil _ (filterMap_toDigits_ne_nil large small _)]

end

theorem underscoresSeparate_of_not_mem {s : List Char} (none : '_' ∉ s) :
    underscoresSeparate s := by
  fun_induction underscoresSeparate s with
  | case1 => rfl
  | case2 => simp at none
  | case3 c rest ih => simp at none
  | case4 c rest _ _ ih => exact ih fun member => none (List.mem_cons_of_mem c member)

theorem isLiteralBlank_of_isAlphanum {c : Char} (plain : c.isAlphanum) :
    isLiteralBlank c = false := by
  have range := isAlphanum_range plain
  simp only [isLiteralBlank, Bool.or_eq_false_iff, beq_eq_false_iff_ne, Bool.and_eq_false_iff,
    decide_eq_false_iff_not]
  refine ⟨?_, by omega⟩
  rintro rfl
  contradiction

/-- A text of letters and digits is not changed, trimmed or taken for one with a sign. -/
theorem splitSign_of_isAlphanum {s : List Char} (plain : ∀ c ∈ s, c.isAlphanum) :
    splitSign ((s.map literalChar).dropWhile isLiteralBlank) = (false, s) := by
  have latin : s.map literalChar = s := by
    refine (List.map_congr_left fun c member => ?_).trans (List.map_id s)
    exact if_pos (isAlphanum_range (plain c member)).2.1
  have solid : s.dropWhile isLiteralBlank = s := by
    refine List.dropWhile_eq_self_iff.mpr fun _ => ?_
    rw [isLiteralBlank_of_isAlphanum (plain _ (List.getElem_mem _))]
    exact Bool.false_ne_true
  rw [latin, solid]
  exact splitSign_of_not_mem (fun member => absurd (plain '-' member) (by decide))
    fun member => absurd (plain '+' member) (by decide)

/-- Digits alone announce no radix but ten. -/
theorem splitRadix_of_isDigit {s : List Char} (digits : ∀ c ∈ s, c.isDigit) :
    splitRadix s = (10, s) := by
  unfold splitRadix
  split
  · rename_i mark rest
    have digit : mark.isDigit := digits mark (List.mem_cons_of_mem _ (List.mem_cons_self ..))
    have other (c : Char) (letter : ¬ c.isDigit) : mark ≠ c := by
      rintro rfl
      exact letter digit
    have notHexadecimal := not_or.mpr ⟨other 'x' (by decide), other 'X' (by decide)⟩
    have notOctal := not_or.mpr ⟨other 'o' (by decide), other 'O' (by decide)⟩
    have notBinary := not_or.mpr ⟨other 'b' (by decide), other 'B' (by decide)⟩
    rw [if_neg notHexadecimal, if_neg notOctal, if_neg notBinary]
  · rfl

namespace Radix

variable (r : Radix) (n : Nat)

theorem isAlphanum_of_mem_digits {c : Char} (member : c ∈ Nat.toDigits r.base n) :
    c.isAlphanum := by
  obtain ⟨digit, below, rfl⟩ := mem_toDigits r.one_lt_base member
  exact isAlphanum_digitChar digit (Nat.lt_of_lt_of_le below r.base_le)

theorem isAlphanum_of_mem_literal {c : Char} (member : c ∈ r.literal n) : c.isAlphanum := by
  rcases List.mem_append.mp member with inMark | inDigits
  · have plain : r.mark.all Char.isAlphanum := by cases r <;> rfl
    exact List.all_eq_true.mp plain c inMark
  · exact r.isAlphanum_of_mem_digits n inDigits

theorem underscore_not_mem_digits : '_' ∉ Nat.toDigits r.base n := fun member =>
  absurd (r.isAlphanum_of_mem_digits n member) (by decide)

/-- The announcement of a radix is recognised, and none is taken for one. -/
theorem splitRadix_literal : splitRadix (r.literal n) = (r.base, Nat.toDigits r.base n) := by
  have noUnderscore := r.underscore_not_mem_digits n
  cases r with
  | decimal =>
    exact splitRadix_of_isDigit fun c member => isDigit_of_mem_toDigits member
  | binary | octal | hexadecimal =>
    simp only [splitRadix, literal, mark, base, List.cons_append, List.nil_append,
      Char.reduceEq, or_self, or_false, ↓reduceIte, Prod.mk.injEq, true_and]
    split
    · rename_i after written
      rw [base, written] at noUnderscore
      exact absurd (List.mem_cons_self ..) noUnderscore
    · rfl

/-- A literal is read back. Only decimal digits are counted, so that the length of the number
does not matter in the other radices. -/
theorem readLiteral_literal {r : Radix} {n : Nat} (short : r = .decimal → Writable n) :
    readLiteral (r.literal n) = .ok n := by
  have start := splitSign_of_isAlphanum fun c => r.isAlphanum_of_mem_literal n (c := c)
  have belongs : ∀ c ∈ Nat.toDigits r.base n, (c == '_' || (radixDigit? r.base c).isSome) := by
    intro c member
    obtain ⟨digit, below, rfl⟩ := mem_toDigits r.one_lt_base member
    rw [radixDigit?_digitChar r.base r.base_le digit below, Option.isSome_some, Bool.or_true]
  have run := List.takeWhile_eq_self_iff.mpr belongs
  have rest := List.dropWhile_eq_nil_iff.mpr belongs
  have value := ofDigitValues_toDigits r.one_lt_base r.base_le n
  have separated := underscoresSeparate_of_not_mem (r.underscore_not_mem_digits n)
  have firstDigit : ¬ ((Nat.toDigits r.base n).head? = some '_' ∨ (!true) = true) := by
    rintro (first | impossible)
    · exact r.underscore_not_mem_digits n (List.mem_of_mem_head? first)
    · cases impossible
  have fewDigits : ¬ (r.base = 10 ∧
      maxDigits < ((Nat.toDigits r.base n).filterMap (radixDigit? r.base)).length) := by
    rintro ⟨ten, many⟩
    have atMost := length_digits_of_writable (short (base_eq_ten_iff.mp ten))
    rw [ten] at many
    omega
  have canonical : ¬ ((Nat.toDigits r.base n).filterMap (radixDigit? r.base) = [] ∨ r.base = 10 ∧
      ((Nat.toDigits r.base n).filterMap (radixDigit? r.base)).head? = some 0 ∧ n ≠ 0) := by
    rintro (none | ⟨_, zero, positive⟩)
    · exact filterMap_toDigits_ne_nil r.one_lt_base r.base_le n none
    · exact head?_filterMap_toDigits r.one_lt_base r.base_le positive zero
  simp only [readLiteral, start, splitRadix_literal, run, rest, value, separated]
  rw [if_neg firstDigit, if_neg fewDigits, if_neg canonical]
  rfl

end Radix

end WordAssembler
