import WordAssembler.Proofs.Layout.Written
import WordAssembler.Proofs.Word.Canonical

namespace WordAssembler

/-- Numbers laid over a first one, so that a bit is set where any of them has it. -/
def overlaid (first : Nat) (numbers : List Nat) : Nat :=
  numbers.foldl (· ||| ·) first

theorem testBit_overlaid (first : Nat) (numbers : List Nat) (i : Nat) :
    (overlaid first numbers).testBit i = (first.testBit i || numbers.any (·.testBit i)) := by
  induction numbers generalizing first with
  | nil => exact (Bool.or_false _).symm
  | cons number rest ih =>
    show (overlaid (first ||| number) rest).testBit i = _
    rw [ih, Nat.testBit_or, List.any_cons, Bool.or_assoc]

namespace Slot

/-- The number of a word that has nothing set but a slot, with the low bits of a number in it. -/
def weigh (s : Slot) (value : Int) : Nat :=
  (value % 2 ^ s.width).toNat * 2 ^ (wordWidth - 1 - s.last)

theorem testBit_weigh {s : Slot} (fits : s.Fits) (value : Int) (i : Nat) :
    (s.weigh value).testBit i =
      (decide (i < wordWidth) && s.carries value (wordWidth - 1 - i)) := by
  obtain ⟨room, inside⟩ := fits
  have onSlot : wordWidth - 1 - s.last ≤ i ∧ i - (wordWidth - 1 - s.last) < s.width ↔
      i < wordWidth ∧ s.Covers (wordWidth - 1 - i) := by
    unfold Covers
    omega
  rw [weigh, Nat.testBit_mul_two_pow, testBit_emod_two_pow, carries, ← Bool.and_assoc,
    ← Bool.and_assoc, ← Bool.decide_and, ← Bool.decide_and, decide_eq_decide.mpr onSlot]
  by_cases held : i < wordWidth ∧ s.Covers (wordWidth - 1 - i)
  · have place : i - (wordWidth - 1 - s.last) = s.last - (wordWidth - 1 - i) := by
      unfold Covers at held
      omega
    rw [place]
  · rw [decide_eq_false held, Bool.false_and, Bool.false_and]

theorem any_testBit_weigh {placed : List (Slot × Int)} (fit : ∀ p ∈ placed, p.1.Fits) (i : Nat) :
    (placed.map fun p => p.1.weigh p.2).any (·.testBit i) =
      (decide (i < wordWidth) && anyCarries placed (wordWidth - 1 - i)) := by
  induction placed with
  | nil => exact (Bool.and_false _).symm
  | cons p rest ih =>
    have tail := ih fun q member => fit q (List.mem_cons_of_mem _ member)
    rw [List.map_cons, List.any_cons, tail, testBit_weigh (fit p (List.mem_cons_self ..)),
      ← Bool.and_or_distrib_left]
    rfl

end Slot

namespace Layout

variable (layout : Layout) (opcode : Int) (operands : Operands) (w : Word)

/-- Writing lays the numbers of all slots over that of the word. -/
theorem toNat_write [Machine] :
    Word.toNat (layout.write opcode operands w).bits =
      overlaid w.toNat ((layout.placed opcode operands).map fun p => p.1.weigh p.2) := by
  refine Nat.eq_of_testBit_eq fun i => ?_
  rw [Word.testBit_toNat, (layout.write_sets opcode operands w).bit, testBit_overlaid,
    Word.testBit_toNat, Slot.any_testBit_weigh (layout.placed_fit opcode operands),
    Bool.and_or_distrib_left]

theorem write_write [Machine] :
    layout.write opcode operands (layout.write opcode operands w).bits =
      layout.write opcode operands w := by
  have once := layout.write_sets opcode operands w
  have twice := layout.write_sets opcode operands (layout.write opcode operands w).bits
  refine twice.unique once fun j => ?_
  rw [once.bit, Bool.or_assoc, Bool.or_self]

/-- The number of a word after its layout was written over the number `a`, slot by slot. -/
def closedForm (opcode : Int) (operands : Operands) (a : Nat) : Layout → Nat
  | .loadStore =>
    a ||| (opcode % 64).toNat * 2 ^ 12 ||| (operands .register % 4).toNat * 2 ^ 10 |||
      (operands .indexRegister % 4).toNat * 2 ^ 8 ||| (operands .indirection % 2).toNat * 2 ^ 7 |||
      (operands .address % 128).toNat
  | .registerPair =>
    a ||| (opcode % 64).toNat * 2 ^ 12 ||| (operands .registerX % 4).toNat * 2 ^ 10 |||
      (operands .registerY % 4).toNat * 2 ^ 8
  | .shift =>
    a ||| (opcode % 64).toNat * 2 ^ 12 ||| (operands .register % 4).toNat * 2 ^ 10 |||
      (operands .arithmeticLogical % 2).toNat * 2 ^ 9 ||| (operands .leftRight % 2).toNat * 2 ^ 8 |||
      (operands .count % 16).toNat
  | .inputOutput =>
    a ||| (opcode % 64).toNat * 2 ^ 12 ||| (operands .register % 4).toNat * 2 ^ 10 |||
      (operands .device % 32).toNat

theorem overlaid_placed (a : Nat) :
    overlaid a ((layout.placed opcode operands).map fun p => p.1.weigh p.2) =
      layout.closedForm opcode operands a := by
  have still : ∀ n : Nat, n * 2 ^ (wordWidth - 1 - 17) = n := Nat.mul_one
  cases layout with
  | loadStore => exact congrArg _ (still _)
  | registerPair => rfl
  | shift => exact congrArg _ (still _)
  | inputOutput => exact congrArg _ (still _)

/-- A layout is written over any word without a fault, and for numbers of any size and sign.
Each number is reduced to its slot and joined to what the slot held; nothing else changes, and
writing again changes nothing at all. -/
theorem write_eq_closedForm [Machine] :
    ∃ after, layout.write opcode operands w = ⟨after, none⟩ ∧
      Word.toNat after = layout.closedForm opcode operands w.toNat ∧
      (Bits.Canonical w → Bits.Canonical after) ∧
      (∀ p ∈ layout.placed opcode operands,
        p.1.read after = p.1.read w ||| (p.2 % 2 ^ p.1.width).toNat) ∧
      (∀ j, (∀ p ∈ layout.placed opcode operands, ¬ p.1.Covers j) → after.bit j = w.bit j) ∧
      layout.write opcode operands after = ⟨after, none⟩ := by
  have sets := layout.write_sets opcode operands w
  have complete := Bits.Edited.eq_of_fault sets.fault
  refine ⟨(layout.write opcode operands w).bits, complete, ?_, fun canonical => ?_, ?_, ?_, ?_⟩
  · rw [toNat_write, overlaid_placed]
  · exact canonical.write layout opcode operands
  · rintro ⟨s, value⟩ member
    exact read_write member w
  · intro j outside
    rw [sets.bit, Slot.anyCarries_of_not_covers outside, Bool.or_false]
  · rw [write_write]
    exact complete

end Layout

end WordAssembler
