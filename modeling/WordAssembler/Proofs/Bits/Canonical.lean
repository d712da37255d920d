import WordAssembler.Layout
import WordAssembler.Proofs.Bits.Flip

namespace WordAssembler.Bits

variable {limit : Option Nat}

/-- A row in which no bit is set where the limit excludes it. Nothing in the type of a
row says so, as its storage has room for any number. -/
def Canonical (b : Bits limit) : Prop :=
  ∀ i : Nat, b.bit i → Admissible limit i

theorem Admissible.of_le {i j : Int} (last : Admissible limit j) (nonneg : 0 ≤ i)
    (before : i ≤ j) : Admissible limit i :=
  ⟨nonneg, fun n atLimit => Int.lt_of_le_of_lt before (last.2 n atLimit)⟩

theorem canonical_blank : (blank : Bits limit).Canonical := by
  intro i isSet
  rw [bit_blank] at isSet
  contradiction

namespace Canonical

variable {b : Bits limit}

theorem put (canonical : b.Canonical) {i : Nat} (admissible : Admissible limit i)
    (value : Bool) : (b.put i value).Canonical := by
  intro j isSet
  rw [bit_put] at isSet
  by_cases same : i = j
  · exact same ▸ admissible
  · rw [if_neg same] at isSet
    exact canonical j isSet

theorem edited (canonical : b.Canonical) {result : Except BitFault (Bits limit)}
    (kept : ∀ after, result = .ok after → after.Canonical) : (b.edited result).bits.Canonical := by
  cases result with
  | ok after => exact kept after rfl
  | error f => exact canonical

theorem andThen {e : Edited limit} {next : Bits limit → Edited limit}
    (first : e.bits.Canonical) (later : ∀ c : Bits limit, c.Canonical → (next c).bits.Canonical) :
    (e.andThen next).bits.Canonical := by
  unfold Edited.andThen
  split
  · exact later e.bits first
  · exact first

variable [Machine]

theorem set (canonical : b.Canonical) {i : Int} {value : Bool} {after : Bits limit}
    (given : b.set i value = .ok after) : after.Canonical := by
  obtain ⟨_, indexed, rest⟩ := bind_eq_ok_iff.mp given
  obtain ⟨_, _, equal⟩ := bind_eq_ok_iff.mp rest
  have admissible := requireIndex_eq_ok_iff.mp indexed
  have nonneg := admissible.1
  obtain rfl : b.put i.toNat value = after := Except.ok.inj equal
  refine canonical.put ?_ value
  rwa [Int.toNat_of_nonneg nonneg]

theorem flip (canonical : b.Canonical) {start stop : Int} {after : Bits limit}
    (given : b.flip start stop = .ok after) : after.Canonical := by
  obtain ⟨⟨⟨nonneg, _⟩, last⟩, _, rfl⟩ := flip_eq_ok_iff.mp given
  intro j isSet
  rw [bit_negate] at isSet
  by_cases inside : start.toNat ≤ j ∧ j < start.toNat + (stop - start).toNat
  · exact last.of_le (by omega) (by omega)
  · rw [decide_eq_false inside, Bool.xor_false] at isSet
    exact canonical j isSet

/-- Whatever a series of changes does, it does it by setting single bits, and what was
done before a fault is kept. -/
theorem editFrom (canonical : b.Canonical)
    (change : Nat → Except BitFault (Option (Int × Bool))) (count i : Nat) :
    (Bits.editFrom change count i b).bits.Canonical := by
  induction count generalizing i b with
  | zero => exact canonical
  | succ n ih =>
    unfold Bits.editFrom
    split
    · exact canonical
    · exact ih canonical (i + 1)
    · exact (canonical.edited fun _ given => canonical.set given).andThen
        fun c kept => ih kept (i + 1)

theorem imprint (canonical : b.Canonical) (source count last : Int) :
    (b.imprint source count last).bits.Canonical :=
  canonical.editFrom _ count.toNat 0

theorem resize {limit' : Option Nat} (canonical : b.Canonical) (source : Bits limit')
    (sourceWidth width : Int) : (source.resize sourceWidth b width).bits.Canonical := by
  unfold Bits.resize
  split
  · exact canonical
  · exact canonical
  · split
    · exact canonical_blank.editFrom _ _ _
    · exact canonical.editFrom _ _ _

theorem write (canonical : b.Canonical) (layout : Layout) (opcode : Int) (operands : Operands) :
    (layout.write opcode operands b).bits.Canonical := by
  have first : (opcodeSlot.write opcode b).bits.Canonical := canonical.imprint _ _ _
  rw [Layout.write]
  generalize opcodeSlot.write opcode b = done at first
  induction layout.fields generalizing done with
  | nil => exact first
  | cons field rest ih =>
    rw [List.foldl_cons]
    exact ih _ (first.andThen fun c kept => kept.imprint _ _ _)

/-- No change sets a bit that the limit excludes, whether it is carried out, refused or
broken off. -/
theorem apply (canonical : b.Canonical) (e : Edit) : (e.apply b).bits.Canonical := by
  cases e with
  | set index value => exact canonical.edited fun _ given => canonical.set given
  | clear => exact canonical_blank
  | flip start stop => exact canonical.edited fun _ given => canonical.flip given
  | imprint source count last => exact canonical.imprint source count last
  | resize source sourceWidth width => exact canonical.resize source sourceWidth width
  | resizeSelf sourceWidth width => exact canonical.resize _ sourceWidth width
  | write layout opcode operands => exact canonical.write layout opcode operands

end Canonical

end WordAssembler.Bits
