import WordAssembler.Bits.Basic
import WordAssembler.Proofs.Except

namespace WordAssembler.Bits

variable {limit : Option Nat}

/-- Whether memory holds the ones that a range of `count` bits is flipped with. They are made at
the low end, and unless there are none they are moved up to the start of the range. -/
def FlipHeld [Machine] (start count : Nat) : Prop :=
  count ≤ lastExponent ∧ (count ≠ 0 → groupsFor count + groupsFor start ≤ Machine.heldGroups)

/-- Below the largest power of two that memory holds every range can be flipped. -/
theorem flipHeld_of_le [Machine] {start count : Nat} (held : start + count ≤ lastExponent) :
    FlipHeld start count := by
  have room := Machine.two_le_heldGroups
  unfold lastExponent at held
  unfold FlipHeld lastExponent groupsFor
  omega

theorem requireRange_eq_ok_iff {start stop : Int} :
    requireRange limit start stop = .ok () ↔
      (0 ≤ start ∧ start ≤ stop) ∧ Admissible limit (max (stop - 1) start) := by
  rw [requireRange]
  split
  · simp only [reduceCtorEq, false_iff]
    omega
  · rw [requireIndex_eq_ok_iff]
    exact (and_iff_right (by omega)).symm

/-- A flip negates its range. Of its indices the last is the only one that is looked at, and the
start where the range is empty. -/
theorem flip_eq_ok_iff [Machine] {b after : Bits limit} {start stop : Int} :
    b.flip start stop = .ok after ↔
      ((0 ≤ start ∧ start ≤ stop) ∧ Admissible limit (max (stop - 1) start)) ∧
        FlipHeld start.toNat (stop - start).toNat ∧
        b.negate start.toNat (stop - start).toNat = after := by
  rw [← requireRange_eq_ok_iff, FlipHeld, ← requirePower_eq_ok_iff, ← requireShift_eq_ok_iff,
    and_assoc]
  refine require_eq_ok_iff.trans (and_congr_right fun _ => ?_)
  refine require_eq_ok_iff.trans (and_congr_right fun _ => ?_)
  have negated : (pure (b.negate start.toNat (stop - start).toNat) : Except BitFault _) = .ok after ↔
      b.negate start.toNat (stop - start).toNat = after :=
    ⟨Except.ok.inj, congrArg Except.ok⟩
  by_cases empty : (stop - start).toNat = 0
  · rw [if_pos empty]
    simp only [empty, ne_eq, not_true_eq_false, false_implies, true_and]
    exact empty ▸ negated
  · rw [if_neg empty]
    simp only [empty, ne_eq, not_false_eq_true, true_implies]
    exact require_eq_ok_iff.trans (and_congr_right fun _ => negated)

theorem flip_natCast_eq_ok_iff [Machine] {b after : Bits limit} {start stop : Nat}
    (ordered : start ≤ stop) :
    b.flip start stop = .ok after ↔
      (Admissible limit (max ((stop : Int) - 1) start) ∧ FlipHeld start (stop - start)) ∧
        b.negate start (stop - start) = after := by
  have count : ((stop : Int) - start).toNat = stop - start := by omega
  have range : (0 : Int) ≤ start ∧ (start : Int) ≤ stop := by omega
  rw [flip_eq_ok_iff, count, Int.toNat_natCast, and_iff_right range, and_assoc]

/-- What is negated twice is as it was. -/
theorem negate_negate (b : Bits limit) (start count : Nat) :
    (b.negate start count).negate start count = b := by
  refine eq_of_bit fun j => ?_
  rw [bit_negate, bit_negate, Bool.xor_assoc, Bool.xor_self, Bool.xor_false]

end WordAssembler.Bits
