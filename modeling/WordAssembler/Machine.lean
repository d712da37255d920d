namespace WordAssembler

/-- How many groups of thirty bits a number of so many bits is stored in. -/
def groupsFor (size : Nat) : Nat :=
  (size + 29) / 30

def countableGroups : Nat := 2305843009213693945

/-- What differs from machine to machine: the largest number of groups that
memory holds, and how many lists and objects of a structured text may be open
at once before the stack is used up. A word fits in every memory, and memory
is used up before groups can no longer be counted. -/
class Machine where
  heldGroups : Nat
  nesting : Nat
  two_le_heldGroups : 2 ≤ heldGroups := by decide
  heldGroups_lt : heldGroups < countableGroups := by decide

/-- A machine whose memory holds numbers of `2 ^ 38` bits, with as much room on
its stack as a command line leaves. -/
instance Machine.usual : Machine where
  heldGroups := 9162596899
  nesting := 992

variable [Machine]

/-- The exponent of the largest power of two that memory holds. -/
def lastExponent : Nat :=
  30 * (Machine.heldGroups - 1)

theorem thirty_le_lastExponent : 30 ≤ lastExponent := by
  have held := Machine.two_le_heldGroups
  unfold lastExponent
  omega

end WordAssembler
