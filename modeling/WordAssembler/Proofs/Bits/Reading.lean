import WordAssembler.Proofs.Bits.Flip
import WordAssembler.Proofs.Bits.Resize

namespace WordAssembler.Bits

section

variable [Machine] {limit limit' : Option Nat}

theorem weighFrom_congr {b : Bits limit} {c : Bits limit'} {start n : Nat}
    (admitted : ∀ i < start + n, Admissible limit i ∧ Admissible limit' i)
    (same : ∀ i < start + n, b.bit i = c.bit i) : b.weighFrom start n = c.weighFrom start n := by
  induction n generalizing start with
  | zero => rfl
  | succ n ih =>
    have shift : start + 1 + n = start + (n + 1) := by omega
    have next : (start : Int) + 1 = (start + 1 : Nat) := by omega
    obtain ⟨here, there⟩ := admitted start (by omega)
    rw [weighFrom, weighFrom, get_natCast here, get_natCast there, same start (by omega), next,
      ih (shift ▸ admitted) (shift ▸ same)]

section Congr

variable {b : Bits limit} {c : Bits limit'} {width : Nat}

theorem unsignedValue_congr (reached : ∀ n ∈ limit, width ≤ n) (reached' : ∀ n ∈ limit', width ≤ n)
    (same : ∀ i < width, b.bit i = c.bit i) : b.unsignedValue width = c.unsignedValue width := by
  have weighed : b.weighFrom (0 : Nat) width = c.weighFrom (0 : Nat) width := by
    refine weighFrom_congr (fun i inside => ?_) (fun i inside => same i (by omega))
    have below : i < width := by omega
    exact ⟨admissible_of_lt reached below, admissible_of_lt reached' below⟩
  rw [unsignedValue, unsignedValue, Int.toNat_natCast]
  exact congrArg _ (funext fun _ => congrArg (· >>= _) weighed)

theorem signedValue_congr (reached : ∀ n ∈ limit, width ≤ n) (reached' : ∀ n ∈ limit', width ≤ n)
    (same : ∀ i < width, b.bit i = c.bit i) : b.signedValue width = c.signedValue width := by
  rcases Nat.eq_zero_or_pos width with rfl | positive
  · rfl
  have sign := same 0 positive
  cases first : b.bit 0 with
  | false =>
    rw [signedValue_of_clear reached (Or.inr first),
      signedValue_of_clear reached' (Or.inr (sign ▸ first)),
      unsignedValue_congr reached reached' same]
  | true =>
    have slices : b.slice 0 width = c.slice 0 width :=
      slice_congr fun i inside => by simpa only [Nat.zero_add] using same i inside
    rw [signedValue_of_set reached positive first,
      signedValue_of_set reached' positive (sign ▸ first), slices]

end Congr

/-- Flipping the bits of a width asks memory for as many ones, which are not moved any further. -/
theorem flip_zero_natCast {width : Nat} (held : width ≤ lastExponent) (b : BitRow) :
    b.flip 0 width = .ok (b.negate 0 width) := by
  have count : ((width : Int) - 0).toNat = width := by omega
  refine flip_eq_ok_iff.mpr ⟨⟨by omega, by omega, nofun⟩, ?_, by rw [count, Int.toNat_zero]⟩
  rw [count]
  exact flipHeld_of_le (by omega)

/-- A number below zero is read from a copy, by flipping it, as one more than what is then
read without a sign. -/
theorem signedValue_of_copy {b : Bits limit} {width : Nat} (reached : ∀ n ∈ limit, width ≤ n)
    (positive : 0 < width) (negative : b.bit 0) (held : width ≤ lastExponent) :
    ∃ copy flipped n, b.resize width (blank : BitRow) width = ⟨copy, none⟩ ∧
      copy.flip 0 width = .ok flipped ∧ flipped.unsignedValue width = .ok n ∧
      b.signedValue width = .ok (-(n + 1) : Int) := by
  have ended := (resize_fault_iff b (blank : BitRow) reached (unlimited width)).mpr
    (Or.inr (by omega))
  let copy := (b.resize width (blank : BitRow) width).bits
  have bits : ∀ i < width, (copy.negate 0 width).bit i = !b.bit i := by
    intro i inside
    have place : width + i - width = i := by omega
    rw [bit_negate, bit_resize b blank reached (unlimited width) ended, if_pos inside, place,
      decide_eq_true (by omega), Bool.true_and, decide_eq_true (by omega), Bool.xor_true]
  have complement := bitsValue_map_not ((List.range' 0 width).map b.bit)
  rw [← slice_zero, List.length_map, List.length_range', List.map_map] at complement
  have flipped : (copy.negate 0 width).slice 0 width =
      bitsValue ((List.range' 0 width).map (not ∘ b.bit)) := by
    rw [slice_zero]
    congr 1
    refine List.map_congr_left fun i member => bits i ?_
    have inside := List.mem_range'_1.mp member
    omega
  have value : -((copy.negate 0 width).slice 0 width + 1 : Int) = b.slice 0 width - 2 ^ width := by
    have power := natCast_two_pow width
    omega
  refine ⟨copy, copy.negate 0 width, _, Edited.eq_of_fault ended, flip_zero_natCast held copy,
    unsignedValue_of_held (unlimited width) (by omega) _, ?_⟩
  rw [signedValue_of_set reached positive negative, if_neg (Nat.not_lt.mpr held), value]

theorem bit_ofInt_slice {b : Bits limit} {width : Nat} {value : Int} {c : BitRow}
    (same : value % 2 ^ width = b.slice 0 width) (given : ofInt value width = .ok c) (i : Nat) :
    c.bit i = (decide (i < width) && b.bit i) := by
  rw [(ofInt_eq_ok_iff.mp given).2]
  by_cases inside : i < width
  · have back : 0 + (width - 1 - (width - 1 - i)) = i := by omega
    rw [integerBit_of_emod_eq_slice same (by omega), back]
  · rw [decide_eq_false inside, Bool.false_and, Bool.false_and]

/-- The numbers that a row gives with and without a sign are in their ranges, differ by the
capacity of the width where the first bit is set, and are both written as the row itself, cut
to the width. Bits beyond the width do not count, and the row stays as it is, since only a copy
of it is ever flipped. Up to the width that memory holds nothing of this is refused. -/
theorem read_writtenBack (b : Bits limit) {width : Nat} (reached : ∀ n ∈ limit, width ≤ n) :
    (width ≤ lastExponent → ∃ n s c, b.unsignedValue width = .ok n ∧
      b.signedValue width = .ok s ∧ ofInt n width = .ok c ∧ ofInt s width = .ok c) ∧
    (∀ n, b.unsignedValue width = .ok n → n < 2 ^ width ∧
      ∀ c, ofInt n width = .ok c → ∀ i, c.bit i = (decide (i < width) && b.bit i)) ∧
    (∀ s, b.signedValue width = .ok s → InSignedRange width s ∧
      ∀ c, ofInt s width = .ok c → ∀ i, c.bit i = (decide (i < width) && b.bit i)) ∧
    (width = 0 ∨ b.bit 0 = false →
      b.signedValue width = (fun n : Nat => (n : Int)) <$> b.unsignedValue width) ∧
    (0 < width → b.bit 0 → ∀ n s, b.unsignedValue width = .ok n → b.signedValue width = .ok s →
      s = n - 2 ^ width) ∧
    (0 < width → b.bit 0 → width ≤ lastExponent → ∃ copy flipped n,
      b.resize width (blank : BitRow) width = ⟨copy, none⟩ ∧ copy.flip 0 width = .ok flipped ∧
        flipped.unsignedValue width = .ok n ∧ b.signedValue width = .ok (-(n + 1) : Int)) ∧
    ∀ (limit' : Option Nat) (c : Bits limit'), (∀ n ∈ limit', width ≤ n) →
      (∀ i < width, b.bit i = c.bit i) →
        b.unsignedValue width = c.unsignedValue width ∧
          b.signedValue width = c.signedValue width := by
  refine ⟨fun held => ?_, fun n read => ?_, fun s read => ?_, signedValue_of_clear reached,
    fun positive negative n s read readSigned => ?_, signedValue_of_copy reached,
    fun limit' c reached' same =>
      ⟨unsignedValue_congr reached reached' same, signedValue_congr reached reached' same⟩⟩
  · have signed := signedValue_of_held reached held b
    have remainder := (signedValue_range reached signed).2
    obtain ⟨c, given⟩ := (@exists_ofInt_iff _ (b.slice 0 width) width).mpr ⟨by omega, fun _ => held⟩
    obtain ⟨c', given'⟩ := (@exists_ofInt_iff _ ((b.slice 0 width : Int).bmod (2 ^ width)) width).mpr
      ⟨by omega, fun _ => held⟩
    have same : c' = c := eq_of_bit fun i =>
      (bit_ofInt_slice remainder given' i).trans (bit_ofInt_slice (slice_emod b width) given i).symm
    exact ⟨_, _, c, unsignedValue_of_held reached (by omega) b, signed, given, same ▸ given'⟩
  · obtain ⟨_, rfl⟩ := (unsignedValue_eq_ok_iff reached).mp read
    exact ⟨b.slice_lt 0 width, fun c => bit_ofInt_slice (slice_emod b width)⟩
  · obtain ⟨range, remainder⟩ := signedValue_range reached read
    exact ⟨range, fun c => bit_ofInt_slice remainder⟩
  · obtain ⟨_, rfl⟩ := (unsignedValue_eq_ok_iff reached).mp read
    obtain ⟨_, rfl⟩ := (signedValue_eq_ok_iff reached).mp readSigned
    have below : ¬ (width = 0 ∨ b.bit 0 = false) :=
      not_or.mpr ⟨positive.ne', fun clear => Bool.false_ne_true (clear.symm.trans negative)⟩
    rw [slice_bmod, if_neg below]

end

theorem read_writtenBack_wordBeyond :
    (∀ n ∈ some wordWidth, 4 ≤ n) ∧ (⟨0x80005⟩ : Word).bit 19 = true ∧
      (⟨0x80005⟩ : Word).unsignedValue 4 = .ok 10 ∧ (⟨0x80005⟩ : Word).signedValue 4 = .ok (-6) ∧
      ∃ c, ofInt 10 4 = .ok c ∧ ofInt (-6) 4 = .ok c := by
  have reached : ∀ n ∈ some wordWidth, 4 ≤ n := by simp [wordWidth]
  have unsigned : (⟨0x80005⟩ : Word).unsignedValue 4 = .ok 10 := by decide +kernel
  have signed : (⟨0x80005⟩ : Word).signedValue 4 = .ok (-6) := by decide +kernel
  obtain ⟨n, s, c, readUnsigned, readSigned, written, writtenSigned⟩ :=
    (read_writtenBack (⟨0x80005⟩ : Word) reached).1 (by decide)
  obtain rfl : n = 10 := Except.ok.inj (readUnsigned.symm.trans unsigned)
  obtain rfl : s = -6 := Except.ok.inj (readSigned.symm.trans signed)
  exact ⟨reached, by decide +kernel, unsigned, signed, c, written, writtenSigned⟩

theorem unsignedValue_blank [Machine] (width : Nat) :
    (blank : BitRow).unsignedValue width = .ok 0 := by
  have nothing : (blank : BitRow).slice 0 width = 0 := by
    refine Nat.eq_of_testBit_eq fun i => ?_
    rw [testBit_slice, bit_blank, Bool.and_false, Nat.zero_testBit]
  refine (unsignedValue_eq_ok_iff (unlimited width)).mpr ⟨fun i _ isSet => ?_, nothing⟩
  rw [bit_blank] at isSet
  contradiction

/-- A word has no more than its own bits, and zero is not written in more than memory holds. -/
theorem read_writtenBack_refused :
    (blank : Word).unsignedValue 19 = .error (.index 18 (some wordWidth)) ∧
      (blank : BitRow).unsignedValue (10 ^ 30 : Nat) = .ok 0 ∧
      ofInt 0 (10 ^ 30 : Nat) = .error .uncountable :=
  ⟨by decide +kernel, unsignedValue_blank _, by decide +kernel⟩

end WordAssembler.Bits
