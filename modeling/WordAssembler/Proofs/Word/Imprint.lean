import WordAssembler.Proofs.Bits.Imprint

namespace WordAssembler

/-- The copying of `count` bits of a number that ends at the index `last` of a word and stays
inside it. Nothing is copied where the count is zero, which may be as early as before the first
index. -/
structure InWord (count last : Int) : Prop where
  count_nonneg : 0 ≤ count
  first_nonneg : 0 ≤ last - count + 1
  last_lt : last < wordWidth

theorem InWord.exists_start {count last : Int} (within : InWord count last) :
    ∃ start n : Nat, start + n ≤ wordWidth ∧ count = n ∧ last = start + n - 1 := by
  obtain ⟨count_nonneg, first_nonneg, last_lt⟩ := within
  exact ⟨(last - count + 1).toNat, count.toNat, by omega, by omega, by omega⟩

namespace Word

theorem sliceTo_run (w : Word) {start count : Nat} (inside : start + count ≤ wordWidth) :
    w.sliceTo (start + count - 1 : Int) count = .ok (w.slice start count) := by
  have admitted : ¬ ((start + count - 1 : Int) - count + 1 < 0 ∨
      (wordWidth : Int) ≤ start + count - 1) := by omega
  have first : ((start + count - 1 : Int) - count + 1).toNat = start := by omega
  rw [sliceTo, if_neg admitted, first, Int.toNat_natCast]

section

variable [Machine]

/-- A number is copied in mirror image: the index of least weight is the last one. -/
theorem imprint_sets_run (w : Word) (source : Int) {start count : Nat}
    (inside : start + count ≤ wordWidth) :
    (w.imprint source count (start + count - 1 : Int)).Sets w fun j =>
      decide (start ≤ j ∧ j < start + count) && integerBit source (start + count - 1 - j) := by
  cases count with
  | zero =>
    refine (Bits.Edited.Sets.refl w).congr fun j => ?_
    rw [decide_eq_false (by omega), Bool.false_and]
  | succ n =>
    have last : (start + (n + 1 : Nat) - 1 : Int) = (start + n : Nat) := by omega
    rw [last]
    refine (w.imprint_sets source (by omega) (by omega)).congr fun j => ?_
    have range : (j ≤ start + n ∧ start + n - j < n + 1) ↔ start ≤ j ∧ j < start + (n + 1) := by
      omega
    rw [decide_eq_decide.mpr range]
    rfl

theorem slice_imprint_run (w : Word) (source : Int) {start count : Nat}
    (inside : start + count ≤ wordWidth) :
    (w.imprint source count (start + count - 1 : Int)).bits.slice start count =
      w.slice start count ||| (source % 2 ^ count).toNat := by
  refine (w.imprint_sets_run source inside).slice fun i below => ?_
  have range : start ≤ start + (count - 1 - i) ∧ start + (count - 1 - i) < start + count := by omega
  have back : start + count - 1 - (start + (count - 1 - i)) = i := by omega
  rw [decide_eq_true range, Bool.true_and, back]

/-- Copying into a word and reading from it match at every place and for every number of bits,
whatever the size and the sign of the number: the bits that are read afterwards are those from
before joined with the low bits of the number, and nothing else has changed. A second copy of the
same number changes nothing, and of any two copies, also of overlapping ones, either may be made
first. -/
theorem imprint_sliceTo (w : Word) (source : Int) {count last : Int} (within : InWord count last) :
    ∃ after old, w.imprint source count last = ⟨after, none⟩ ∧
      w.sliceTo last count = .ok old ∧
      Word.sliceTo after last count = .ok (old ||| (source % 2 ^ count.toNat).toNat) ∧
      (∀ j : Nat, (j : Int) < last - count + 1 ∨ last < j → after.bit j = w.bit j) ∧
      Bits.imprint after source count last = ⟨after, none⟩ ∧
      ∀ (source' : Int) {count' last' : Int}, InWord count' last' →
        ∃ other both, w.imprint source' count' last' = ⟨other, none⟩ ∧
          Bits.imprint after source' count' last' = ⟨both, none⟩ ∧
          Bits.imprint other source count last = ⟨both, none⟩ := by
  obtain ⟨start, n, inside, rfl, rfl⟩ := within.exists_start
  have sets := fun v : Word => v.imprint_sets_run source inside
  have complete := Bits.Edited.eq_of_fault (sets w).fault
  refine ⟨_, _, complete, w.sliceTo_run inside, ?_, fun j outside => ?_, ?_,
    fun source' count' last' within' => ?_⟩
  · rw [sliceTo_run _ inside, slice_imprint_run w source inside, Int.toNat_natCast]
  · have beyond : ¬ (start ≤ j ∧ j < start + n) := by omega
    rw [(sets w).bit, decide_eq_false beyond, Bool.false_and, Bool.or_false]
  · rw [← complete]
    refine (sets _).unique (sets w) fun j => ?_
    rw [(sets w).bit, Bool.or_assoc, Bool.or_self]
  · obtain ⟨start', n', inside', rfl, rfl⟩ := within'.exists_start
    have sets' := fun v : Word => v.imprint_sets_run source' inside'
    have last := Bits.Edited.eq_of_fault (sets' (w.imprint source n (start + n - 1)).bits).fault
    refine ⟨_, _, Bits.Edited.eq_of_fault (sets' w).fault, last, ?_⟩
    rw [← last]
    refine (sets _).unique (sets' _) fun j => ?_
    rw [(sets w).bit, (sets' w).bit, Bool.or_right_comm]

end

/-- A number below zero over a bit that is set already, and a second number across its end. -/
theorem imprint_sliceTo_overlapping :
    let w : Word := ⟨2 ^ 8 + 2 ^ 20⟩
    InWord 7 9 ∧ InWord 4 11 ∧ w.sliceTo 9 7 = .ok 2 ∧
      ∃ after other both, w.imprint (-3) 7 9 = ⟨after, none⟩ ∧
        Word.sliceTo after 9 7 = .ok 127 ∧ w.imprint 5 4 11 = ⟨other, none⟩ ∧
        Bits.imprint after 5 4 11 = ⟨both, none⟩ ∧ Bits.imprint other (-3) 7 9 = ⟨both, none⟩ := by
  intro w
  have within : InWord 7 9 := ⟨by decide, by decide, by decide⟩
  have within' : InWord 4 11 := ⟨by decide, by decide, by decide⟩
  have before : w.sliceTo 9 7 = .ok 2 := by decide +kernel
  obtain ⟨after, old, written, read, joined, _, _, swapped⟩ := imprint_sliceTo w (-3) within
  obtain rfl : old = 2 := Except.ok.inj (read.symm.trans before)
  obtain ⟨other, both, first, second, again⟩ := swapped 5 within'
  exact ⟨within, within', before, after, other, both, written, joined, first, second, again⟩

end Word

end WordAssembler
