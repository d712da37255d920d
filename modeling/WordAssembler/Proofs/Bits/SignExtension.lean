import WordAssembler.Proofs.Bits.Conversion

namespace WordAssembler.Bits

/-- From the sign bit on, a number has nothing but copies of it. -/
theorem integerBit_eq_sign {value : Int} {places i : Nat}
    (range : InSignedRange (places + 1) value) (above : places ≤ i) :
    integerBit value i = decide (value < 0) := by
  have powers : 2 ^ places ≤ 2 ^ i := Nat.pow_le_pow_right (by decide) above
  have power := natCast_two_pow places
  obtain ⟨lower, upper⟩ := range
  cases value with
  | ofNat n =>
    have below : n < 2 ^ i := by
      have := Int.ofNat_eq_natCast n
      omega
    rw [Int.ofNat_eq_natCast, integerBit_natCast, Nat.testBit_lt_two_pow below,
      decide_eq_false (by omega)]
  | negSucc n =>
    have below : n < 2 ^ i := by omega
    rw [integerBit_negSucc, Nat.testBit_lt_two_pow below,
      decide_eq_true (Int.negSucc_lt_zero n)]
    rfl

section

variable [Machine] {source : BitRow} {sw dw : Nat} {value : Int}

/-- What memory gives is in the range of every width beyond memory. -/
theorem inSignedRange_of_beyond (valued : source.signedValue sw = .ok value)
    (beyond : lastExponent + 1 < dw) : InSignedRange dw value := by
  obtain ⟨condition, balanced⟩ := (signedValue_eq_ok_iff (unlimited sw)).mp valued
  split at condition
  · rename_i clear
    obtain ⟨n, rfl⟩ : ∃ n, dw = n + 1 := ⟨dw - 1, by omega⟩
    rw [slice_bmod, if_pos clear] at balanced
    have small : source.slice 0 sw < 2 ^ n := by
      refine Nat.lt_pow_two_of_testBit _ fun i above => ?_
      rw [testBit_slice]
      by_contra set
      obtain ⟨inside, isSet⟩ := Bool.and_eq_true_iff.mp (Bool.not_eq_false _ ▸ set)
      have inside := of_decide_eq_true inside
      have weight := condition (0 + (sw - 1 - i)) (by omega) isSet
      omega
    have power := natCast_two_pow n
    exact ⟨by omega, by omega⟩
  · exact (signedValue_range (unlimited sw) valued).1.mono (by omega)

theorem error_of_requirePower {f : BitFault} (value : Int) {n : Nat}
    (refused : requirePower n = .error f) :
    checkFits value (n + 1 : Nat) true = .error f ∧ ofInt value (n + 1 : Nat) = .error f := by
  have positive : ((n + 1 : Nat) : Int) ≠ 0 := by omega
  have place : ((n + 1 : Nat) : Int) - 1 = n := by omega
  have nonneg : ¬ (n : Int) < 0 := by omega
  constructor
  · rw [checkFits, if_pos rfl, fitsWithSign, if_neg positive, place, requireWeight, if_neg nonneg,
      Int.toNat_natCast, refused]
    rfl
  · rw [ofInt, requireWidth_natCast, Int.toNat_natCast]
    show (requirePower n >>= fun _ => _) = _
    rw [refused]
    rfl

/-- Only a narrower width can be too small for the number, so that the check may be made for
all widths. Where the width is beyond memory, checking and writing are refused alike. -/
theorem resizeSigned_eq (valued : source.signedValue sw = .ok value) (dw : Nat) :
    source.resizeSigned sw dw = if InSignedRange dw value then ofInt value dw
      else .error (BitFault.overflow value true dw).reported := by
  have range := (signedValue_range (unlimited sw) valued).1
  have read : source.resizeSigned sw dw = if (dw : Int) < sw then
      (discard (checkFits value dw true) >>= fun _ => ofInt value dw) else ofInt value dw := by
    rw [resizeSigned, valued]
    split <;> rfl
  rw [read]
  by_cases narrowing : dw < sw
  · rw [if_pos (by omega)]
    by_cases stored : dw ≤ lastExponent + 1
    · rw [checkFits_signed value stored]
      split <;> rfl
    · rw [if_pos (inSignedRange_of_beyond valued (by omega))]
      obtain ⟨n, rfl⟩ : ∃ n, dw = n + 1 := ⟨dw - 1, by omega⟩
      cases power : requirePower n with
      | ok _ => exact absurd (requirePower_eq_ok_iff.mp power) (by omega)
      | error f =>
        obtain ⟨checked, written⟩ := error_of_requirePower value power
        rw [checked, written]
        rfl
  · rw [if_neg (by omega), if_pos (range.mono (by omega))]

theorem signedValue_ofInt {b : BitRow} (given : ofInt value dw = .ok b)
    (range : InSignedRange dw value) : b.signedValue dw = .ok value := by
  obtain ⟨⟨held, heldBelow⟩, bits⟩ := ofInt_eq_ok_iff.mp given
  refine (signedValue_eq_ok_iff (unlimited dw)).mpr ⟨?_, ?_⟩
  · split
    · exact weighable_of_le held b
    · rename_i set
      obtain ⟨positive, isSet⟩ := not_or.mp set
      obtain ⟨n, rfl⟩ := Nat.exists_eq_succ_of_ne_zero positive
      rw [bits, integerBit_eq_sign range (by omega)] at isSet
      exact heldBelow (by simpa using isSet)
  · rw [slice_ofInt given, bmod_emod_two_pow]
    exact (eq_bmod_iff.mpr ⟨range, rfl⟩).symm

theorem bit_resizeSigned {b : BitRow} (valued : source.signedValue sw = .ok value)
    (given : ofInt value dw = .ok b) (extending : sw ≤ dw) {i : Nat} (inside : i < dw) :
    b.bit i = if dw ≤ sw + i then source.bit (sw + i - dw)
      else decide (0 < sw) && source.bit 0 := by
  obtain ⟨range, remainder⟩ := signedValue_range (unlimited sw) valued
  have copied : ∀ j < sw, integerBit value j = source.bit (0 + (sw - 1 - j)) :=
    fun j low => integerBit_of_emod_eq_slice remainder low
  rw [(ofInt_eq_ok_iff.mp given).2, decide_eq_true inside, Bool.true_and]
  split
  · have place : 0 + (sw - 1 - (dw - 1 - i)) = sw + i - dw := by omega
    rw [copied _ (by omega), place]
  · -- without a source bit the number is zero, and there is no sign to copy
    cases sw with
    | zero =>
      have nothing : value = 0 := range
      rw [nothing, decide_eq_false (Nat.lt_irrefl 0), Bool.false_and]
      exact (integerBit_natCast 0 _).trans (Nat.zero_testBit _)
    | succ n =>
      have place : 0 + (n + 1 - 1 - n) = 0 := by omega
      have sign := (integerBit_eq_sign range le_rfl).symm.trans (copied n (Nat.lt_succ_self n))
      rw [integerBit_eq_sign range (by omega), sign, place, decide_eq_true (Nat.succ_pos n),
        Bool.true_and]

end

/-- Extending a sign is exact or refused: a number that the new width cannot write is refused as
such, or as unwritable when it has more digits than a message may show, and any other number is
read back from the row, which has nothing beyond its width. A width that is not narrower is
never too small, and the row is then the source, led by copies of its sign. -/
theorem resizeSigned_exact [Machine] (source : BitRow) (sw dw : Nat) :
    (sw ≤ lastExponent → ∃ v, source.signedValue sw = .ok v) ∧
    ∀ v, source.signedValue sw = .ok v →
      (source.resizeSigned sw dw = .error (.overflow v true dw) ↔
        ¬ InSignedRange dw v ∧ Writable v) ∧
      (source.resizeSigned sw dw = .error .unwritable ↔ ¬ InSignedRange dw v ∧ ¬ Writable v) ∧
      ((∃ f, source.resizeSigned sw dw = .error f ∧ f.faultClass = .encoding .widthOverflow) ↔
        ¬ InSignedRange dw v ∧ Writable v) ∧
      ((∃ f, source.resizeSigned sw dw = .error f ∧ f.faultClass.IsValue) ↔
        ¬ InSignedRange dw v ∧ ¬ Writable v) ∧
      ((∃ c, source.resizeSigned sw dw = .ok c) ↔
        InSignedRange dw v ∧ dw ≤ lastExponent + 1 ∧ (v < 0 → dw ≤ lastExponent)) ∧
      (sw ≤ dw → InSignedRange dw v) ∧
      ∀ c, source.resizeSigned sw dw = .ok c →
        (∀ i, dw ≤ i → c.bit i = false) ∧ c.signedValue dw = .ok v ∧
        (sw ≤ dw → ∀ i < dw, c.bit i = if dw ≤ sw + i then source.bit (sw + i - dw)
          else decide (0 < sw) && source.bit 0) := by
  refine ⟨fun held => ⟨_, signedValue_of_held (unlimited sw) held source⟩, fun v valued => ?_⟩
  have widened : sw ≤ dw → InSignedRange dw v := (signedValue_range (unlimited sw) valued).1.mono
  rw [resizeSigned_eq valued dw]
  by_cases inside : InSignedRange dw v
  · rw [if_pos inside]
    have memory : ∀ f, ofInt v dw = .error f → f = .uncountable ∨ f = .outOfMemory :=
      fun f => ofInt_error_cases
    have notRefused : ∀ P : Prop, ¬ (¬ InSignedRange dw v ∧ P) := fun P refused => refused.1 inside
    refine ⟨iff_of_false (fun refused => ?_) (notRefused _),
      iff_of_false (fun refused => ?_) (notRefused _),
      iff_of_false (fun ⟨f, refused, ofClass⟩ => ?_) (notRefused _),
      iff_of_false (fun ⟨f, refused, ofClass⟩ => ?_) (notRefused _),
      exists_ofInt_iff.trans (and_iff_right inside).symm, widened, fun c given => ?_⟩
    · rcases memory _ refused with impossible | impossible <;> contradiction
    · rcases memory _ refused with impossible | impossible <;> contradiction
    · rcases memory f refused with rfl | rfl <;> contradiction
    · rcases memory f refused with rfl | rfl <;> exact absurd ofClass (by decide)
    · exact ⟨fun i => bit_ofInt_of_le given, signedValue_ofInt given inside,
        fun extending i low => bit_resizeSigned valued given extending low⟩
  · have narrower : ¬ sw ≤ dw := fun extending => inside (widened extending)
    have shown : Writable dw :=
      writable_of_held (Nat.not_lt.mp fun beyond => inside (inSignedRange_of_beyond valued beyond))
    rw [if_neg inside, reported_overflow v true shown]
    by_cases writable : Writable v
    · simp [inside, writable, narrower, BitFault.faultClass, FaultClass.IsValue]
    · simp [inside, writable, narrower, BitFault.faultClass, FaultClass.IsValue]

theorem resizeSigned_unwritable :
    (⟨2⟩ : BitRow).signedValue (14300 : Nat) = .ok (2 ^ 14298) ∧
      ¬ InSignedRange 3 (2 ^ 14298) ∧
      (⟨2⟩ : BitRow).resizeSigned (14300 : Nat) (3 : Nat) = .error .unwritable := by
  have reached := unlimited 14300
  have bits : ∀ i, (⟨2⟩ : BitRow).bit i = decide (1 = i) := by
    intro i
    rw [← Nat.testBit_two_pow, pow_one]
    rfl
  have single : (⟨2⟩ : BitRow).slice 0 14300 = 2 ^ 14298 := by
    refine Nat.eq_of_testBit_eq fun i => ?_
    rw [testBit_slice, bits, Nat.testBit_two_pow, ← Bool.decide_and]
    exact decide_eq_decide.mpr (by omega)
  have clear : (⟨2⟩ : BitRow).bit 0 = false := by decide
  have valued : (⟨2⟩ : BitRow).signedValue (14300 : Nat) = .ok (2 ^ 14298) := by
    rw [signedValue_of_clear reached (Or.inr clear),
      unsignedValue_of_held reached (by decide), single]
    exact congrArg Except.ok (Nat.cast_pow 2 14298)
  have outside : ¬ InSignedRange 3 (2 ^ 14298) := by decide +kernel
  have overlong : ¬ Writable (2 ^ 14298) := by decide +kernel
  refine ⟨valued, outside, ?_⟩
  rw [resizeSigned_eq valued, if_neg outside, reported_overflow _ true (by decide +kernel),
    if_neg overlong]

end WordAssembler.Bits
