import WordAssembler.Field
import WordAssembler.Proofs.Bits.Imprint
import WordAssembler.Proofs.Bits.Value

namespace WordAssembler.Slot

/-- The indices that belong to a slot. -/
def Covers (s : Slot) (j : Nat) : Prop :=
  j ≤ s.last ∧ s.last - j < s.width

instance (s : Slot) (j : Nat) : Decidable (s.Covers j) :=
  inferInstanceAs (Decidable (_ ∧ _))

/-- A slot that does not reach beyond either end of a word. -/
def Fits (s : Slot) : Prop :=
  s.width ≤ s.last + 1 ∧ s.last < wordWidth

instance (s : Slot) : Decidable s.Fits :=
  inferInstanceAs (Decidable (_ ∧ _))

/-- One of two slots ends before the other one starts. -/
def Apart (s t : Slot) : Prop :=
  s.last < t.first ∨ t.last < s.first

instance (s t : Slot) : Decidable (s.Apart t) :=
  inferInstanceAs (Decidable (_ ∨ _))

theorem Apart.symm {s t : Slot} (apart : s.Apart t) : t.Apart s :=
  Or.symm apart

theorem Apart.not_covers {s t : Slot} (apart : s.Apart t) {j : Nat} (covers : s.Covers j) :
    ¬ t.Covers j := by
  intro other
  unfold Apart first at apart
  unfold Covers at covers other
  omega

/-- Whether writing a number into a slot sets the bit at an index. -/
def carries (s : Slot) (value : Int) (j : Nat) : Bool :=
  decide (s.Covers j) && integerBit value (s.last - j)

theorem carries_of_covers {s : Slot} {j : Nat} (covers : s.Covers j) (value : Int) :
    s.carries value j = integerBit value (s.last - j) := by
  simp only [carries, covers, decide_true, Bool.true_and]

theorem carries_of_not_covers {s : Slot} {j : Nat} (outside : ¬ s.Covers j) (value : Int) :
    s.carries value j = false := by
  simp only [carries, outside, decide_false, Bool.false_and]

theorem write_sets [Machine] {s : Slot} (fits : s.Fits) (value : Int) (w : Word) :
    (s.write value w).Sets w (s.carries value) :=
  w.imprint_sets value fits.1 fits.2

/-- The bit of weight `2 ^ i` of a slot stands `i` places before its last index. -/
theorem testBit_read {limit : Option Nat} {s : Slot} (fits : s.Fits) (b : Bits limit) (i : Nat) :
    (s.read b).testBit i = (decide (i < s.width) && b.bit (s.last - i)) := by
  rw [read, Bits.testBit_slice]
  by_cases inside : i < s.width
  · have room := fits.1
    have place : s.first + (s.width - 1 - i) = s.last - i := by
      unfold first
      omega
    rw [place]
  · rw [decide_eq_false inside, Bool.false_and, Bool.false_and]

theorem covers_of_lt {s : Slot} (fits : s.Fits) {i : Nat} (inside : i < s.width) :
    s.Covers (s.last - i) := by
  have room := fits.1
  unfold Covers
  omega

theorem read_blank {s : Slot} (fits : s.Fits) : s.read (Bits.blank : Word) = 0 := by
  refine Nat.eq_of_testBit_eq fun i => ?_
  rw [testBit_read fits, Bits.bit_blank, Bool.and_false, Nat.zero_testBit]

/-- Whether writing numbers into slots sets the bit at an index. -/
def anyCarries (placed : List (Slot × Int)) (j : Nat) : Bool :=
  placed.any fun p => p.1.carries p.2 j

/-- Numbers written one after another into slots of a word, after changes that
only set bits. -/
theorem writes_set [Machine] {placed : List (Slot × Int)} (fit : ∀ p ∈ placed, p.1.Fits) {w : Word}
    {e : Bits.Edited (some wordWidth)} {before : Nat → Bool} (sets : e.Sets w before) :
    (placed.foldl (fun done p => done.andThen (p.1.write p.2)) e).Sets w
      fun j => before j || anyCarries placed j := by
  induction placed generalizing e before with
  | nil => exact sets.congr fun j => (Bool.or_false _).symm
  | cons p rest ih =>
    obtain ⟨s, value⟩ := p
    have head : s.Fits := fit (s, value) (List.mem_cons_self ..)
    have next := sets.andThen (write_sets head value)
    refine (ih (fun p member => fit p (List.mem_cons_of_mem _ member)) next).congr fun j => ?_
    simp only [anyCarries, List.any_cons, Bool.or_assoc]

theorem anyCarries_of_not_covers {placed : List (Slot × Int)} {j : Nat}
    (outside : ∀ p ∈ placed, ¬ p.1.Covers j) : anyCarries placed j = false := by
  rw [anyCarries, List.any_eq_false]
  intro p member
  rw [carries_of_not_covers (outside p member)]
  decide

/-- An index of a slot that is apart from all others gets its bit from the
number in that slot alone. -/
theorem anyCarries_of_covers {placed : List (Slot × Int)}
    (apart : placed.Pairwise fun p q => p.1.Apart q.1) {s : Slot} {value : Int}
    (member : (s, value) ∈ placed) {j : Nat} (covers : s.Covers j) :
    anyCarries placed j = integerBit value (s.last - j) := by
  induction placed with
  | nil => simp at member
  | cons p rest ih =>
    have heads := (List.pairwise_cons.mp apart).1
    rcases List.mem_cons.mp member with equal | later
    · cases equal
      have others : anyCarries rest j = false :=
        anyCarries_of_not_covers fun q inRest => (heads q inRest).not_covers covers
      rw [anyCarries] at others
      simp only [anyCarries, List.any_cons, others, carries_of_covers covers, Bool.or_false]
    · have missed := (heads _ later).symm.not_covers covers
      have tail := ih (List.pairwise_cons.mp apart).2 later
      rw [anyCarries] at tail
      simp only [anyCarries, List.any_cons, tail, carries_of_not_covers missed, Bool.false_or]

end WordAssembler.Slot
