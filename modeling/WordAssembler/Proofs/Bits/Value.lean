import Mathlib.Data.List.Induction
import Mathlib.Tactic.Ring
import WordAssembler.Word

namespace WordAssembler

theorem natCast_two_pow (n : Nat) : ((2 ^ n : Nat) : Int) = 2 ^ n :=
  Int.natCast_pow 2 n

/-- What is left of an integer above some places is its quotient, rounded down also below zero. -/
theorem shiftRight_eq_ediv (value : Int) (places : Nat) : value >>> places = value / 2 ^ places := by
  rw [Int.shiftRight_eq_div_pow, natCast_two_pow]

theorem bitsValue_append_singleton (bits : List Bool) (last : Bool) :
    bitsValue (bits ++ [last]) = 2 * bitsValue bits + last.toNat := by
  simp only [bitsValue, List.foldl_append, List.foldl_cons, List.foldl_nil]

/-- Bits are counted from the end of the row when they are weighed. -/
theorem testBit_bitsValue (bits : List Bool) (i : Nat) :
    (bitsValue bits).testBit i = bits.reverse[i]?.getD false := by
  induction bits using List.reverseRecOn generalizing i with
  | nil => simp only [bitsValue, List.foldl_nil, Nat.zero_testBit, List.reverse_nil,
      List.getElem?_nil, Option.getD_none]
  | append_singleton bits last ih =>
    rw [bitsValue_append_singleton, List.reverse_append, List.reverse_singleton,
      List.singleton_append]
    cases i with
    | zero =>
      have low : (2 * bitsValue bits + last.toNat) % 2 = last.toNat := by
        have := last.toNat_lt
        omega
      rw [Nat.testBit_zero, low]
      cases last <;> rfl
    | succ i =>
      have half : (2 * bitsValue bits + last.toNat) / 2 = bitsValue bits := by
        have := last.toNat_lt
        omega
      rw [Nat.testBit_succ, half, ih, List.getElem?_cons_succ]

/-- The bit of weight `2 ^ i` of a slice stands `i` places before its end. -/
theorem Bits.testBit_slice {limit : Option Nat} (b : Bits limit) (start count i : Nat) :
    (b.slice start count).testBit i = (decide (i < count) && b.bit (start + (count - 1 - i))) := by
  rw [slice, testBit_bitsValue]
  by_cases inside : i < count
  · have fromEnd : count - 1 - i < count := by omega
    rw [List.getElem?_reverse (by simpa using inside), List.length_map, List.length_range,
      List.getElem?_map, List.getElem?_range fromEnd]
    simp only [Option.map_some, Option.getD_some, inside, decide_true, Bool.true_and]
  · have outside : ((List.range count).map fun i => b.bit (start + i)).reverse[i]? = none := by
      rw [List.getElem?_eq_none_iff, List.length_reverse, List.length_map, List.length_range]
      omega
    simp only [outside, Option.getD_none, inside, decide_false, Bool.false_and]

/-- Dropping a multiple of a higher power of two leaves a bit as it is, also
below zero, where the remainder is still the Euclidean one. -/
theorem testBit_emod_two_pow (value : Int) (width i : Nat) :
    (value % 2 ^ width).toNat.testBit i = (decide (i < width) && integerBit value i) := by
  have positive : (0 : Int) < 2 ^ width := Int.pow_pos (by decide)
  have nonneg : 0 ≤ value % 2 ^ width := Int.emod_nonneg _ positive.ne'
  by_cases inside : i < width
  · have weights : (2 : Int) ^ width = 2 ^ i * (2 * 2 ^ (width - i - 1)) := by
      rw [← pow_succ', ← pow_add]
      congr 1
      omega
    have quotient : (value % 2 ^ width) / 2 ^ i =
        value / 2 ^ i - 2 * (2 ^ (width - i - 1) * (value / 2 ^ width)) := by
      have rest : value % 2 ^ width =
          value + 2 ^ i * -(2 * (2 ^ (width - i - 1) * (value / 2 ^ width))) := by
        rw [Int.emod_def, weights]
        ring
      rw [rest, Int.add_mul_ediv_left _ _ (Int.pow_pos (by decide)).ne']
      ring
    have remainder : (((value % 2 ^ width).toNat / 2 ^ i % 2 : Nat) : Int) =
        value / 2 ^ i % 2 := by
      push_cast
      rw [Int.toNat_of_nonneg nonneg, quotient]
      omega
    rw [Nat.testBit_eq_decide_div_mod_eq, integerBit, shiftRight_eq_ediv, ← remainder,
      beq_eq_decide]
    simp only [inside, decide_true, Bool.true_and]
    exact decide_eq_decide.mpr Int.natCast_inj.symm
  · have below : (value % 2 ^ width).toNat < 2 ^ i := by
      have bound := Int.emod_lt_of_pos value positive
      have power : (2 : Nat) ^ width ≤ 2 ^ i := Nat.pow_le_pow_right (by decide) (by omega)
      rw [Int.toNat_lt nonneg]
      exact bound.trans_le (by exact_mod_cast power)
    simp only [Nat.testBit_lt_two_pow below, inside, decide_false, Bool.false_and]

theorem integerBit_natCast (n i : Nat) : integerBit n i = n.testBit i := by
  have shifted : (n : Int) >>> i % 2 = (n / 2 ^ i % 2 : Nat) := by
    rw [shiftRight_eq_ediv]
    norm_cast
  rw [integerBit, shifted, Nat.testBit_eq_decide_div_mod_eq, beq_eq_decide]
  exact decide_eq_decide.mpr (by norm_cast)

theorem integerBit_negSucc (n i : Nat) : integerBit (.negSucc n) i = !n.testBit i := by
  have shifted : Int.negSucc n >>> i = Int.negSucc (n / 2 ^ i) := by
    rw [← Nat.shiftRight_eq_div_pow]
    rfl
  rw [integerBit, shifted, Nat.testBit_eq_decide_div_mod_eq, beq_eq_decide, ← decide_not]
  exact decide_eq_decide.mpr (by omega)

/-- Negating bits takes their number to the other end of the range. -/
theorem bitsValue_map_not (bits : List Bool) :
    bitsValue (bits.map not) + bitsValue bits + 1 = 2 ^ bits.length := by
  induction bits using List.reverseRecOn with
  | nil => rfl
  | append_singleton bits last ih =>
    have one : (!last).toNat + last.toNat = 1 := by cases last <;> rfl
    rw [List.map_append, List.map_singleton, bitsValue_append_singleton,
      bitsValue_append_singleton, List.length_append, List.length_singleton, pow_succ]
    omega

namespace Bits

variable {limit : Option Nat}

theorem slice_lt (b : Bits limit) (start count : Nat) : b.slice start count < 2 ^ count := by
  refine Nat.lt_pow_two_of_testBit _ fun i outside => ?_
  have beyond : ¬ i < count := by omega
  rw [testBit_slice, decide_eq_false beyond, Bool.false_and]

theorem slice_eq_emod {b : Bits limit} {start count : Nat} {value : Int}
    (held : ∀ i < count, b.bit (start + (count - 1 - i)) = integerBit value i) :
    (b.slice start count : Int) = value % 2 ^ count := by
  have bits : b.slice start count = (value % 2 ^ count).toNat := by
    refine Nat.eq_of_testBit_eq fun i => ?_
    rw [testBit_slice, testBit_emod_two_pow]
    by_cases inside : i < count
    · rw [held i inside]
    · simp only [inside, decide_false, Bool.false_and]
  rw [bits, Int.toNat_of_nonneg (Int.emod_nonneg _ (Int.pow_pos (by decide)).ne')]

/-- The bits of a slice are those of any number that leaves it as its remainder. -/
theorem integerBit_of_emod_eq_slice {b : Bits limit} {start count i : Nat} {value : Int}
    (same : value % 2 ^ count = b.slice start count) (inside : i < count) :
    integerBit value i = b.bit (start + (count - 1 - i)) := by
  have place := testBit_emod_two_pow value count i
  rw [same, Int.toNat_natCast, testBit_slice, decide_eq_true inside, Bool.true_and,
    Bool.true_and] at place
  exact place.symm

theorem slice_congr {limit' : Option Nat} {b : Bits limit} {c : Bits limit'} {start count : Nat}
    (same : ∀ i < count, b.bit (start + i) = c.bit (start + i)) :
    b.slice start count = c.slice start count := by
  rw [slice, slice]
  congr 1
  exact List.map_congr_left fun i member => same i (List.mem_range.mp member)

/-- A row of some bits writes at least half of its range where its first bit is set. -/
theorem bit_zero_iff {b : Bits limit} {width : Nat} :
    b.bit 0 ↔ 2 ^ width ≤ b.slice 0 (width + 1) := by
  have top : (b.slice 0 (width + 1)).testBit width = b.bit 0 := by
    have place : 0 + (width + 1 - 1 - width) = 0 := by omega
    rw [testBit_slice, place, decide_eq_true (Nat.lt_succ_self width), Bool.true_and]
  rw [← top]
  constructor
  · exact Nat.ge_two_pow_of_testBit
  · intro half
    by_contra clear
    have below : b.slice 0 (width + 1) < 2 ^ width := by
      refine Nat.lt_pow_two_of_testBit _ fun i above => ?_
      rcases Nat.eq_or_lt_of_le above with same | beyond
      · rw [← same]
        exact Bool.not_eq_true _ ▸ clear
      · have outside : ¬ i < width + 1 := by omega
        rw [testBit_slice, decide_eq_false outside, Bool.false_and]
    omega

end Bits

end WordAssembler
