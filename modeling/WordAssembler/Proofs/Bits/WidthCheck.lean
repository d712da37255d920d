import WordAssembler.Proofs.Bits.SignExtension

namespace WordAssembler

section

variable [Machine]

theorem fitsIn_error_cases {signed : Bool} {value : Int} {width : Nat} {f : BitFault}
    (refused : fitsIn signed value width = .error f) : f = .uncountable ∨ f = .outOfMemory := by
  cases signed with
  | false =>
    have refused : fitsWithoutSign value width = .error f := refused
    rw [fitsWithoutSign] at refused
    split at refused
    · contradiction
    · rcases bind_eq_error_iff.mp refused with tooFar | ⟨_, _, impossible⟩
      · exact requireWeight_error_cases tooFar
      · contradiction
  | true =>
    have refused : fitsWithSign value width = .error f := refused
    rw [fitsWithSign] at refused
    split at refused
    · contradiction
    · rename_i positive
      have place : (width : Int) - 1 = (width - 1 : Nat) := by omega
      rw [place] at refused
      rcases bind_eq_error_iff.mp refused with tooFar | ⟨_, _, impossible⟩
      · exact requireWeight_error_cases tooFar
      · contradiction

theorem fitsIn_mono {signed : Bool} {value : Int} {narrow wide : Nat} (le : narrow ≤ wide)
    (accepted : fitsIn signed value narrow = .ok true) {fits : Bool}
    (answer : fitsIn signed value wide = .ok fits) : fits = true := by
  cases signed with
  | false =>
    obtain ⟨nonneg, below⟩ := (fitsWithoutSign_eq_ok_iff.mp accepted).2.mp rfl
    have powers : (2 : Int) ^ narrow ≤ 2 ^ wide := by
      exact_mod_cast Nat.pow_le_pow_right (by decide) le
    exact (fitsWithoutSign_eq_ok_iff.mp answer).2.mpr ⟨nonneg, by omega⟩
  | true =>
    have range := (fitsWithSign_eq_ok_iff.mp accepted).2.mp rfl
    exact (fitsWithSign_eq_ok_iff.mp answer).2.mpr (range.mono le)

/-- A number that does not fit is named, with the width, in the message. -/
theorem checkFits_eq_overflow_iff {signed : Bool} {value : Int} {width : Nat}
    (writable : Writable value) (shown : Writable width) :
    checkFits value width signed = .error (.overflow value signed width) ↔
      fitsIn signed value width = .ok false := by
  have named : (BitFault.overflow value signed width).reported = .overflow value signed width := by
    rw [reported_overflow value signed shown, if_pos writable]
  rw [checkFits_eq, bind_eq_error_iff]
  constructor
  · rintro (refused | ⟨fits, answer, given⟩)
    · rcases fitsIn_error_cases refused with impossible | impossible
      · exact nomatch impossible
      · exact nomatch impossible
    · cases fits with
      | false => exact answer
      | true => exact nomatch given
  · intro answer
    exact Or.inr ⟨false, answer, congrArg Except.error named⟩

end

namespace Bits

section

variable [Machine] {value : Int} {width : Nat} {b : BitRow}

/-- A row that writes a number gives it back without a sign exactly if it is in the range. -/
theorem unsignedValue_ofInt_eq_iff (given : ofInt value width = .ok b) :
    (∃ n : Nat, b.unsignedValue width = .ok n ∧ (n : Int) = value) ↔
      0 ≤ value ∧ value < 2 ^ width := by
  have held := (ofInt_eq_ok_iff.mp given).1.1
  have remainder := slice_ofInt given
  rw [unsignedValue_of_held (unlimited width) held]
  constructor
  · rintro ⟨n, read, rfl⟩
    obtain rfl := Except.ok.inj read
    exact ⟨by omega, by exact_mod_cast b.slice_lt 0 width⟩
  · rintro ⟨nonneg, below⟩
    rw [Int.emod_eq_of_lt nonneg below] at remainder
    exact ⟨_, rfl, remainder⟩

theorem signedValue_ofInt_eq_iff (given : ofInt value width = .ok b) :
    b.signedValue width = .ok value ↔ InSignedRange width value :=
  ⟨fun read => (signedValue_range (unlimited width) read).1, signedValue_ofInt given⟩

/-- The check of a width accepts exactly the numbers that come back from the bits of that width,
and what is accepted in one width is accepted in every wider one. What a check gives back is the
number itself, and every other number is refused as one that does not fit, as long as it and the
width have no more digits than a message may show. Only memory sets a bound to the width; below
zero no power is needed without a sign, and with a sign writing needs one bit more than checking. -/
theorem fits_iff_readBack (value : Int) (width : Nat) :
    ((∃ fits, fitsWithoutSign value width = .ok fits) ↔ value < 0 ∨ width ≤ lastExponent) ∧
    ((∃ fits, fitsWithSign value width = .ok fits) ↔ width ≤ lastExponent + 1) ∧
    (∀ fits, fitsWithoutSign value width = .ok fits → (fits = true ↔
      ∃ b n, ofInt value width = .ok b ∧ b.unsignedValue width = .ok n ∧ (n : Int) = value)) ∧
    ((value < 0 → width ≤ lastExponent) → ∀ fits, fitsWithSign value width = .ok fits →
      (fits = true ↔ ∃ b, ofInt value width = .ok b ∧ b.signedValue width = .ok value)) ∧
    ∀ signed,
      (∀ wider : Nat, width ≤ wider → fitsIn signed value width = .ok true →
        ∀ fits, fitsIn signed value wider = .ok fits → fits = true) ∧
      (∀ checked, checkFits value width signed = .ok checked ↔
        fitsIn signed value width = .ok true ∧ checked = value) ∧
      (Writable value → Writable width →
        (checkFits value width signed = .error (.overflow value signed width) ↔
          fitsIn signed value width = .ok false)) ∧
      ∀ f, fitsIn signed value width = .error f →
        checkFits value width signed = .error f ∧ (f = .uncountable ∨ f = .outOfMemory) := by
  refine ⟨?_, ?_, ?_, ?_, fun signed => ⟨?_, ?_, ?_, ?_⟩⟩
  · simp only [fitsWithoutSign_eq_ok_iff, exists_and_left]
    exact and_iff_left ⟨decide (0 ≤ value ∧ value < 2 ^ width), decide_eq_true_iff⟩
  · simp only [fitsWithSign_eq_ok_iff, exists_and_left]
    exact and_iff_left ⟨decide (InSignedRange width value), decide_eq_true_iff⟩
  · intro fits answer
    obtain ⟨returned, accepted⟩ := fitsWithoutSign_eq_ok_iff.mp answer
    rw [accepted]
    constructor
    · intro range
      obtain ⟨b, given⟩ := (@exists_ofInt_iff _ value width).mpr (by omega)
      obtain ⟨n, read⟩ := (unsignedValue_ofInt_eq_iff given).mpr range
      exact ⟨b, n, given, read⟩
    · rintro ⟨b, n, given, read⟩
      exact (unsignedValue_ofInt_eq_iff given).mp ⟨n, read⟩
  · intro heldBelow fits answer
    obtain ⟨returned, accepted⟩ := fitsWithSign_eq_ok_iff.mp answer
    obtain ⟨b, given⟩ := (@exists_ofInt_iff _ value width).mpr ⟨returned, heldBelow⟩
    rw [accepted, ← signedValue_ofInt_eq_iff given]
    constructor
    · intro read
      exact ⟨b, given, read⟩
    · rintro ⟨c, again, read⟩
      rwa [Except.ok.inj (given.symm.trans again)]
  · intro wider le accepted fits answer
    exact fitsIn_mono le accepted answer
  · intro checked
    exact checkFits_eq_ok_iff
  -- The message names both numbers, and either of them can be too long for it.
  · intro writable shown
    exact checkFits_eq_overflow_iff writable shown
  · intro f refused
    rw [checkFits_eq, refused]
    exact ⟨rfl, fitsIn_error_cases refused⟩

end

/-- Not even zero, which fits in one bit, is checked against a width that is larger than memory. -/
theorem fits_refused_beyondMemory :
    fitsWithoutSign 0 1 = .ok true ∧ fitsWithoutSign 0 (10 ^ 30) = .error .uncountable ∧
      fitsWithSign 0 (10 ^ 30) = .error .uncountable ∧
      checkFits 0 (10 ^ 30) false = .error .uncountable := by
  refine ⟨?_, ?_, ?_, ?_⟩ <;> decide +kernel

end Bits

end WordAssembler
