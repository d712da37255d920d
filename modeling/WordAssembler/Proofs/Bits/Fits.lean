import Mathlib.Algebra.Order.Ring.Int
import WordAssembler.Proofs.Bits.Value
import WordAssembler.Proofs.Except

namespace WordAssembler

section Weight

variable [Machine]

theorem requireWeight_eq_ok_iff {width : Nat} :
    requireWeight width = .ok () ↔ width ≤ lastExponent := by
  have nonneg : ¬ (width : Int) < 0 := by omega
  rw [requireWeight, if_neg nonneg, Int.toNat_natCast, requirePower_eq_ok_iff]

theorem requireWeight_natCast {width : Nat} (stored : width ≤ lastExponent) :
    requireWeight width = .ok () :=
  requireWeight_eq_ok_iff.mpr stored

theorem requireWeight_error_cases {place : Nat} {f : BitFault}
    (refused : requireWeight place = .error f) : f = .uncountable ∨ f = .outOfMemory := by
  have nonneg : ¬ (place : Int) < 0 := by omega
  rw [requireWeight, if_neg nonneg, Int.toNat_natCast] at refused
  exact requirePower_error_cases refused

theorem integerBitAt_natCast (value : Int) {place : Nat} (stored : place ≤ lastExponent) :
    integerBitAt value place = .ok (integerBit value place) := by
  rw [integerBitAt, requireWeight_natCast stored]
  rfl

/-- A width that memory holds a power of is not long. -/
theorem writable_of_held {width : Nat} (held : width ≤ lastExponent + 1) : Writable width := by
  have few := Machine.heldGroups_lt
  have short : width < 10 ^ 20 := by
    unfold countableGroups at few
    unfold lastExponent at held
    omega
  have digits : 20 ≤ maxDigits := by decide
  rw [Writable, Int.natAbs_natCast]
  generalize maxDigits = most at digits ⊢
  exact short.trans_le (Nat.pow_le_pow_right (by decide) digits)

end Weight

/-- The numbers that `width` bits write in two's complement. No bits write zero only. -/
def InSignedRange : Nat → Int → Prop
  | 0, value => value = 0
  | width + 1, value => -2 ^ width ≤ value ∧ value < 2 ^ width

instance : (width : Nat) → (value : Int) → Decidable (InSignedRange width value)
  | 0, value => inferInstanceAs (Decidable (value = 0))
  | _ + 1, _ => inferInstanceAs (Decidable (_ ∧ _))

theorem inSignedRange_iff {width : Nat} {value : Int} :
    InSignedRange width value ↔ -2 ^ width ≤ 2 * value ∧ 2 * value < 2 ^ width := by
  cases width with
  | zero =>
    simp only [InSignedRange, pow_zero]
    omega
  | succ n =>
    simp only [InSignedRange, pow_succ]
    omega

theorem InSignedRange.mono {value : Int} {narrow wide : Nat} (range : InSignedRange narrow value)
    (le : narrow ≤ wide) : InSignedRange wide value := by
  rw [inSignedRange_iff] at range ⊢
  have powers : (2 : Int) ^ narrow ≤ 2 ^ wide := by
    exact_mod_cast Nat.pow_le_pow_right (by decide) le
  omega

/-- The signed range holds one number of each remainder, which is the balanced one. -/
theorem eq_bmod_iff {width : Nat} {value signed : Int} :
    signed = value.bmod (2 ^ width) ↔
      InSignedRange width signed ∧ signed % 2 ^ width = value % 2 ^ width := by
  have range : -((2 : Int) ^ width / 2) ≤ signed ∧ signed < (2 ^ width + 1) / 2 ↔
      InSignedRange width signed := by
    rw [inSignedRange_iff]
    cases width with
    | zero =>
      rw [pow_zero]
      omega
    | succ n =>
      rw [pow_succ]
      omega
  rw [eq_comm, Int.bmod_eq_iff (Nat.two_pow_pos width), natCast_two_pow, ← and_assoc, range,
    Int.dvd_iff_emod_eq_zero, Int.emod_eq_emod_iff_emod_sub_eq_zero]

/-- Nothing is left of a number above its lowest places exactly where it is in the range that
they write without a sign. -/
theorem shiftRight_eq_zero_iff {value : Int} {places : Nat} :
    value >>> places = 0 ↔ 0 ≤ value ∧ value < 2 ^ places := by
  have positive : (0 : Int) < 2 ^ places := Int.pow_pos (by decide)
  have between : value / 2 ^ places = 0 ↔ 0 ≤ value / 2 ^ places ∧ value / 2 ^ places < 1 := by
    omega
  rw [shiftRight_eq_ediv, between, Int.le_ediv_iff_mul_le positive,
    Int.ediv_lt_iff_lt_mul positive, Int.zero_mul, Int.one_mul]

/-- Nothing but copies of one bit is left of a number above its lowest places exactly where it
is in the range that they write with a sign. -/
theorem shiftRight_eq_sign_iff {value : Int} {places : Nat} :
    value >>> places = 0 ∨ value >>> places = -1 ↔ InSignedRange (places + 1) value := by
  have positive : (0 : Int) < 2 ^ places := Int.pow_pos (by decide)
  have between : value / 2 ^ places = 0 ∨ value / 2 ^ places = -1 ↔
      -1 ≤ value / 2 ^ places ∧ value / 2 ^ places < 1 := by
    omega
  rw [shiftRight_eq_ediv, between, Int.le_ediv_iff_mul_le positive,
    Int.ediv_lt_iff_lt_mul positive, Int.neg_one_mul, Int.one_mul, InSignedRange]

theorem reported_overflow (value : Int) (signed : Bool) {width : Int} (shown : Writable width) :
    (BitFault.overflow value signed width).reported =
      if Writable value then .overflow value signed width else .unwritable := by
  simp only [BitFault.reported, BitFault.numbers, List.forall_mem_cons, List.not_mem_nil,
    false_implies, implies_true, shown, and_true]

variable [Machine]

/-- A number below zero is refused before its width is looked at. -/
theorem fitsWithoutSign_eq_ok_iff {value : Int} {width : Nat} {fits : Bool} :
    fitsWithoutSign value width = .ok fits ↔
      (value < 0 ∨ width ≤ lastExponent) ∧ (fits = true ↔ 0 ≤ value ∧ value < 2 ^ width) := by
  by_cases negative : value < 0
  · have outside : ¬ (0 ≤ value ∧ value < 2 ^ width) := by omega
    rw [fitsWithoutSign, if_pos negative, ← decide_eq_false outside, ok_decide_eq_ok_iff]
    exact (and_iff_right (Or.inl negative)).symm
  · rw [fitsWithoutSign, if_neg negative, require_eq_ok_iff, requireWeight_eq_ok_iff,
      Int.toNat_natCast, ← shiftRight_eq_zero_iff, or_iff_right negative]
    exact and_congr_right fun _ => ok_decide_eq_ok_iff

theorem fitsWithSign_eq_ok_iff {value : Int} {width : Nat} {fits : Bool} :
    fitsWithSign value width = .ok fits ↔
      width ≤ lastExponent + 1 ∧ (fits = true ↔ InSignedRange width value) := by
  cases width with
  | zero =>
    show (.ok (decide (value = 0)) : Except BitFault Bool) = .ok fits ↔ _
    rw [ok_decide_eq_ok_iff]
    exact (and_iff_right (Nat.zero_le _)).symm
  | succ n =>
    have positive : ((n + 1 : Nat) : Int) ≠ 0 := by omega
    have place : ((n + 1 : Nat) : Int) - 1 = n := by omega
    rw [fitsWithSign, if_neg positive, place, require_eq_ok_iff, requireWeight_eq_ok_iff,
      Int.toNat_natCast, ← shiftRight_eq_sign_iff, Nat.add_le_add_iff_right]
    exact and_congr_right fun _ => ok_decide_eq_ok_iff

/-- Whether a number is written in `width` bits, with a sign or without one. -/
def fitsIn (signed : Bool) (value width : Int) : Except BitFault Bool :=
  if signed then fitsWithSign value width else fitsWithoutSign value width

theorem checkFits_eq (signed : Bool) (value width : Int) :
    checkFits value width signed = fitsIn signed value width >>= fun fits =>
      if fits then .ok value else .error (BitFault.overflow value signed width).reported := by
  cases signed <;> rfl

theorem checkFits_eq_ok_iff {signed : Bool} {value width checked : Int} :
    checkFits value width signed = .ok checked ↔
      fitsIn signed value width = .ok true ∧ checked = value := by
  rw [checkFits_eq, bind_eq_ok_iff]
  constructor
  · rintro ⟨fits, answer, given⟩
    cases fits with
    | false => contradiction
    | true => exact ⟨answer, (Except.ok.inj given).symm⟩
  · rintro ⟨accepted, rfl⟩
    exact ⟨true, accepted, rfl⟩

theorem checkFits_unsigned (value : Int) {width : Nat} (stored : width ≤ lastExponent) :
    checkFits value width false = if 0 ≤ value ∧ value < 2 ^ width then .ok value
      else .error (BitFault.overflow value false width).reported := by
  have answer : fitsIn false value width = .ok (decide (0 ≤ value ∧ value < 2 ^ width)) :=
    fitsWithoutSign_eq_ok_iff.mpr ⟨Or.inr stored, decide_eq_true_iff⟩
  rw [checkFits_eq, answer]
  by_cases inside : 0 ≤ value ∧ value < 2 ^ width
  · rw [decide_eq_true inside, if_pos inside]
    rfl
  · rw [decide_eq_false inside, if_neg inside]
    rfl

theorem checkFits_unsigned_eq_ok_iff {value : Int} {width : Nat} (stored : width ≤ lastExponent)
    {checked : Int} :
    checkFits value width false = .ok checked ↔
      (0 ≤ value ∧ value < 2 ^ width) ∧ checked = value := by
  rw [checkFits_unsigned value stored]
  split
  · rename_i inside
    rw [Except.ok.injEq, and_iff_right inside]
    exact eq_comm
  · rename_i outside
    simp only [reduceCtorEq, outside, false_and]

theorem checkFits_signed (value : Int) {width : Nat} (stored : width ≤ lastExponent + 1) :
    checkFits value width true = if InSignedRange width value then .ok value
      else .error (BitFault.overflow value true width).reported := by
  have answer : fitsIn true value width = .ok (decide (InSignedRange width value)) :=
    fitsWithSign_eq_ok_iff.mpr ⟨stored, decide_eq_true_iff⟩
  rw [checkFits_eq, answer]
  by_cases inside : InSignedRange width value
  · rw [decide_eq_true inside, if_pos inside]
    rfl
  · rw [decide_eq_false inside, if_neg inside]
    rfl

end WordAssembler
