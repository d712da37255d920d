import WordAssembler.Bits.Fault
import WordAssembler.Machine

namespace WordAssembler

variable [Machine]

/-- Refuses to store a number in more groups than memory holds. -/
def requireGroups (groups : Nat) : Except BitFault Unit :=
  if countableGroups < groups then .error .uncountable
  else if Machine.heldGroups < groups then .error .outOfMemory
  else .ok ()

/-- Refuses to move a number of `size` bits up by so many places that memory
does not hold the result. -/
def requireShift (size count : Nat) : Except BitFault Unit :=
  requireGroups (groupsFor size + groupsFor count)

/-- Refuses the power of two with an exponent that memory does not hold. -/
def requirePower (exponent : Nat) : Except BitFault Unit :=
  requireShift 1 exponent

/-- Refuses the weight of a place that is negative or too far up. -/
def requireWeight (place : Int) : Except BitFault Unit :=
  if place < 0 then .error .negativeShift else requirePower place.toNat

theorem requireShift_eq_ok_iff {size count : Nat} :
    requireShift size count = .ok () ↔
      groupsFor size + groupsFor count ≤ Machine.heldGroups := by
  have countable := Machine.heldGroups_lt
  rw [requireShift, requireGroups]
  split
  · simp only [reduceCtorEq, false_iff]
    omega
  · split <;> simp only [reduceCtorEq, true_iff, false_iff] <;> omega

/-- Exactly the powers of two up to the last one are stored. -/
theorem requirePower_eq_ok_iff {exponent : Nat} :
    requirePower exponent = .ok () ↔ exponent ≤ lastExponent := by
  have held := Machine.two_le_heldGroups
  rw [requirePower, requireShift_eq_ok_iff]
  unfold groupsFor lastExponent
  omega

theorem requirePower_error_cases {exponent : Nat} {f : BitFault}
    (refused : requirePower exponent = .error f) : f = .uncountable ∨ f = .outOfMemory := by
  rw [requirePower, requireShift, requireGroups] at refused
  split at refused
  · exact Or.inl (Except.error.inj refused).symm
  · split at refused
    · exact Or.inr (Except.error.inj refused).symm
    · contradiction

end WordAssembler
