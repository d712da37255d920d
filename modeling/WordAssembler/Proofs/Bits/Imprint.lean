import WordAssembler.Proofs.Bits.Fits

namespace WordAssembler.Bits

variable {limit : Option Nat}

/-- A series of changes to `b` that ended without a fault and did nothing but
set bits: those that `added` marks, and those that were set before. -/
structure Edited.Sets (e : Edited limit) (b : Bits limit) (added : Nat → Bool) : Prop where
  fault : e.fault = none
  bit : ∀ j, e.bits.bit j = (b.bit j || added j)

theorem Edited.Sets.refl (b : Bits limit) : Edited.Sets ⟨b, none⟩ b fun _ => false :=
  ⟨rfl, fun j => (Bool.or_false (b.bit j)).symm⟩

theorem Edited.Sets.congr {e : Edited limit} {b : Bits limit} {added marked : Nat → Bool}
    (sets : e.Sets b added) (same : ∀ j, added j = marked j) : e.Sets b marked := by
  refine ⟨sets.fault, fun j => ?_⟩
  rw [sets.bit, same]

/-- A series that goes on with another one sets what either of them sets. -/
theorem Edited.Sets.andThen {e : Edited limit} {b : Bits limit} {first second : Nat → Bool}
    {next : Bits limit → Edited limit} (sets : e.Sets b first)
    (after : ∀ c, (next c).Sets c second) :
    (e.andThen next).Sets b fun j => first j || second j := by
  have goesOn : e.andThen next = next e.bits := by
    simp only [Edited.andThen, sets.fault]
  have last := after e.bits
  rw [goesOn]
  refine ⟨last.fault, fun j => ?_⟩
  rw [last.bit, sets.bit, Bool.or_assoc]

/-- Two series that leave the same bits set are the same, whatever they started from. -/
theorem Edited.Sets.unique {e f : Edited limit} {b c : Bits limit} {added marked : Nat → Bool}
    (first : e.Sets b added) (second : f.Sets c marked)
    (same : ∀ j, (b.bit j || added j) = (c.bit j || marked j)) : e = f := by
  have bits : e.bits = f.bits := by
    refine eq_of_bit fun j => ?_
    rw [first.bit, second.bit, same]
  rw [Edited.eq_of_fault first.fault, Edited.eq_of_fault second.fault, bits]

/-- A slice in which the bits of a number are set is joined with its remainder. -/
theorem Edited.Sets.slice {e : Edited limit} {b : Bits limit} {added : Nat → Bool}
    {value : Int} {start count : Nat} (sets : e.Sets b added)
    (carried : ∀ i < count, added (start + (count - 1 - i)) = integerBit value i) :
    e.bits.slice start count = b.slice start count ||| (value % 2 ^ count).toNat := by
  refine Nat.eq_of_testBit_eq fun i => ?_
  rw [Nat.testBit_or, testBit_slice, testBit_slice, testBit_emod_two_pow, sets.bit,
    ← Bool.and_or_distrib_left]
  by_cases inside : i < count
  · rw [carried i inside]
  · rw [decide_eq_false inside, Bool.false_and, Bool.false_and]

variable [Machine]

/-- The indices of a word are all admitted, and storage for their weights never
runs out. -/
theorem set_word (w : Word) {i : Nat} (inside : i < wordWidth) (value : Bool) :
    w.set i value = .ok (w.put i value) := by
  have admissible : Admissible (some wordWidth) i :=
    admissible_of_lt (limited wordWidth) inside
  exact set_natCast admissible (inside.le.trans wordWidth_le_lastExponent) w value

/-- A step of copying looks at one place of the number, and names the index that the place
leads to if its bit is set. -/
def copyStep (source last : Int) (k : Nat) : Except BitFault (Option (Int × Bool)) := do
  return if ← integerBitAt source k then some (last - k, true) else none

theorem copyStep_eq (source last : Int) {k : Nat} (inside : k < wordWidth) :
    copyStep source last k = .ok (if integerBit source k then some (last - k, true) else none) := by
  rw [copyStep, integerBitAt_natCast source (inside.le.trans wordWidth_le_lastExponent)]
  rfl

/-- Of the `n` steps that copy the bits of a number from the place `i` on, each
sets at most the one bit that its place leads to. -/
theorem editFrom_sets (source : Int) {last : Nat} (inside : last < wordWidth) (w : Word)
    {n i : Nat} (room : i + n ≤ last + 1) :
    (editFrom (copyStep source last) n i w).Sets w fun j =>
        decide (j ≤ last ∧ i ≤ last - j ∧ last - j < i + n) && integerBit source (last - j) := by
  induction n generalizing i w with
  | zero =>
    refine (Edited.Sets.refl w).congr fun j => ?_
    have outside : ¬ (j ≤ last ∧ i ≤ last - j ∧ last - j < i + 0) := by omega
    simp only [outside, decide_false, Bool.false_and]
  | succ n ih =>
    have rest := fun c => ih c (i := i + 1) (by omega)
    have place : (last : Int) - i = (last - i : Nat) := by omega
    have step := copyStep_eq source last (k := i) (by omega)
    -- The place of step `i` is the only one that the later steps do not reach.
    have split : ∀ j, (decide (j ≤ last ∧ i ≤ last - j ∧ last - j < i + (n + 1))) =
        (decide (last - i = j) || decide (j ≤ last ∧ i + 1 ≤ last - j ∧ last - j < i + 1 + n)) := by
      intro j
      rw [← Bool.decide_or]
      exact decide_eq_decide.mpr (by omega)
    cases bit : integerBit source i with
    | false =>
      simp only [editFrom, step, bit, Bool.false_eq_true, if_false]
      refine (rest w).congr fun j => ?_
      rw [split]
      by_cases atPlace : last - i = j
      · have back : last - j = i := by omega
        simp only [back, bit, Bool.and_false]
      · simp only [atPlace, decide_false, Bool.false_or]
    | true =>
      have first : Edited.Sets (w.edited (w.set ((last : Int) - i) true)) w
          fun j => decide (last - i = j) := by
        rw [place, set_word w (by omega)]
        refine ⟨rfl, fun j => ?_⟩
        simp only [edited, bit_put]
        by_cases atPlace : last - i = j <;> simp [atPlace]
      simp only [editFrom, step, bit, if_true]
      refine (first.andThen rest).congr fun j => ?_
      rw [split]
      by_cases atPlace : last - i = j
      · have back : last - j = i := by omega
        simp only [atPlace, back, bit, decide_true, Bool.true_or, Bool.and_true]
      · simp only [atPlace, decide_false, Bool.false_or]

/-- Copying the low bits of a number of any size and sign into a word never
fails where the places are inside the word, and sets exactly their mirror image. -/
theorem imprint_sets (w : Word) (source : Int) {count last : Nat} (room : count ≤ last + 1)
    (inside : last < wordWidth) :
    (w.imprint source count last).Sets w fun j =>
      decide (j ≤ last ∧ last - j < count) && integerBit source (last - j) := by
  have steps := editFrom_sets source inside w (n := count) (i := 0) (by omega)
  refine steps.congr fun j => ?_
  simp only [Nat.zero_le, true_and, Nat.zero_add]

end WordAssembler.Bits
