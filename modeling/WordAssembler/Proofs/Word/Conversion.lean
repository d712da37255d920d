import WordAssembler.Proofs.Bits.Conversion
import WordAssembler.Proofs.Bits.Digits
import WordAssembler.Proofs.Word.Canonical

namespace WordAssembler

theorem natCast_wordOf (value : Int) : (wordOf value : Int) = value % 2 ^ wordWidth := by
  have capacity : ((capacity wordWidth : Nat) : Int) = 2 ^ wordWidth := by decide
  rw [wordOf, capacity]
  exact Int.toNat_of_nonneg (Int.emod_nonneg _ (by decide))

/-- Of the numbers with the low bits of an integer, the one in the signed range is taken. -/
theorem signedWordOf_eq_bmod (value : Int) :
    signedWordOf value = value.bmod (2 ^ wordWidth) := by
  have number := natCast_wordOf value
  have all : capacity wordWidth = 262144 := by decide
  have half : capacity (wordWidth - 1) = 131072 := by decide
  rw [eq_bmod_iff, inSignedRange_iff, signedWordOf, all, half]
  rw [wordWidth] at number ⊢
  split <;> omega

namespace Word

theorem bit_ofInt (value : Int) (i : Nat) :
    (ofInt value).bit i = (decide (i < wordWidth) && integerBit value (wordWidth - 1 - i)) := by
  have low := testBit_emod_two_pow value wordWidth (wordWidth - 1 - i)
  rw [← natCast_wordOf, Int.toNat_natCast] at low
  rw [ofInt, naturalBits, Bits.bit_ofList_range, low]
  by_cases inside : i < wordWidth
  · rw [decide_eq_true (by omega : wordWidth - 1 - i < wordWidth), Bool.true_and]
  · rw [decide_eq_false inside, Bool.false_and, Bool.false_and]

/-- A word is made of an integer in the same way as a row of its width. -/
theorem store_ofInt [Machine] {value : Int} {b : BitRow}
    (given : Bits.ofInt value wordWidth = .ok b) :
    (ofInt value).store = b.store := by
  refine Nat.eq_of_testBit_eq fun i => ?_
  show (ofInt value).bit i = b.bit i
  rw [bit_ofInt, (Bits.ofInt_eq_ok_iff.mp given).2]

theorem toNat_ofInt (value : Int) : (ofInt value).toNat = wordOf value := by
  have slice : (((ofInt value).slice 0 wordWidth : Nat) : Int) = value % 2 ^ wordWidth := by
    refine Bits.slice_eq_emod fun i inside => ?_
    have place : 0 + (wordWidth - 1 - i) < wordWidth := by omega
    have back : wordWidth - 1 - (0 + (wordWidth - 1 - i)) = i := by omega
    rw [bit_ofInt, decide_eq_true place, Bool.true_and, back]
  rw [← natCast_wordOf] at slice
  exact_mod_cast slice

/-- A word that stores nothing beyond its width is made of its number again. -/
theorem ofInt_toNat {w : Word} (canonical : Bits.Canonical w) : ofInt w.toNat = w := by
  refine (toNat_inj (canonical_ofInt _) canonical).mp ?_
  have number := natCast_wordOf w.toNat
  rw [Int.emod_eq_of_lt (by omega) (by exact_mod_cast w.toNat_lt)] at number
  rw [toNat_ofInt]
  exact_mod_cast number

theorem unsignedValue_eq [Machine] (w : Word) : w.unsignedValue wordWidth = .ok w.toNat :=
  Bits.unsignedValue_of_held (Bits.limited wordWidth)
    (Bits.wordWidth_le_lastExponent.trans (Nat.le_succ _)) w

theorem signedValue_eq [Machine] (w : Word) : w.signedValue wordWidth = .ok w.toInt := by
  rw [toInt, signedWordOf_eq_bmod]
  exact Bits.signedValue_of_held (Bits.limited wordWidth) Bits.wordWidth_le_lastExponent w

theorem toInt_ofInt (value : Int) : (ofInt value).toInt = signedWordOf value := by
  rw [toInt, toNat_ofInt, signedWordOf_eq_bmod, signedWordOf_eq_bmod, natCast_wordOf,
    Bits.bmod_emod_two_pow]

theorem ofDigitChars_octal (w : Word) : Nat.ofDigitChars 8 w.octal 0 = w.toNat :=
  ofDigitChars_paddedDigits 6 w.toNat (by decide) (by decide)

theorem ofDigitChars_binary (w : Word) : Nat.ofDigitChars 2 w.binary 0 = w.toNat := by
  rw [binary, Bits.ofDigitChars_digits, toNat, Bits.slice]
  simp only [Nat.zero_add]

theorem mem_binary {w : Word} {c : Char} (member : c ∈ w.binary) : c ∈ ['0', '1'] := by
  obtain ⟨bit, _, rfl⟩ := List.mem_map.mp member
  cases bit <;> decide

/-- A word that stores nothing beyond its width is read back from its digits, and no other. -/
theorem ofText_binary_iff {w : Word} : Bits.ofText w.binary = .ok w ↔ Bits.Canonical w := by
  have length : ∀ n ∈ some wordWidth, ((List.range wordWidth).map w.bit).length ≤ n := by
    intro n atLimit
    rw [List.length_map, List.length_range]
    exact Bits.limited wordWidth n atLimit
  have bits := fun j => @Bits.bit_ofList_range (some wordWidth) w.bit wordWidth j
  rw [binary, Bits.ofText_digits length, Except.ok.injEq, canonical_iff]
  constructor
  · intro same j outside
    rw [← same, bits, decide_eq_false (by omega), Bool.false_and]
  · intro clear
    refine Bits.eq_of_bit fun j => ?_
    rw [bits]
    by_cases inside : j < wordWidth
    · rw [decide_eq_true inside, Bool.true_and]
    · rw [decide_eq_false inside, Bool.false_and, clear j (by omega)]

/-- A word and a row of its width are made of an integer alike and read alike, without a sign as
its remainder and with a sign as the number of the signed range that has this remainder. The
digits of a word give its number again, and the word itself unless it stores more than its width. -/
theorem ofInt_agrees [Machine] (value : Int) :
    (∃ b : BitRow, Bits.ofInt value wordWidth = .ok b ∧ (ofInt value).store = b.store) ∧
    ((ofInt value).toNat = wordOf value ∧ (wordOf value : Int) = value % 2 ^ wordWidth ∧
      (ofInt value).unsignedValue wordWidth = .ok (wordOf value)) ∧
    ((ofInt value).toInt = signedWordOf value ∧
      (ofInt value).signedValue wordWidth = .ok (signedWordOf value) ∧
      (-2 ^ 17 ≤ signedWordOf value ∧ signedWordOf value < 2 ^ 17) ∧
      signedWordOf value % 2 ^ wordWidth = value % 2 ^ wordWidth) ∧
    Bits.ofText (ofInt value).binary = .ok (ofInt value) ∧
    ∀ w : Word,
      ((∀ c ∈ w.octal, c ∈ ['0', '1', '2', '3', '4', '5', '6', '7']) ∧
        Nat.ofDigitChars 8 w.octal 0 = w.toNat) ∧
      ((∀ c ∈ w.binary, c ∈ ['0', '1']) ∧ Nat.ofDigitChars 2 w.binary 0 = w.toNat) ∧
      (Bits.ofText w.binary = .ok w ↔ Bits.Canonical w) := by
  have stored : wordWidth ≤ lastExponent := Bits.wordWidth_le_lastExponent
  obtain ⟨b, given⟩ := (@Bits.exists_ofInt_iff _ value wordWidth).mpr ⟨by omega, fun _ => stored⟩
  obtain ⟨range, remainder⟩ := eq_bmod_iff.mp (signedWordOf_eq_bmod value)
  have unsigned := unsignedValue_eq (ofInt value)
  have signed := signedValue_eq (ofInt value)
  rw [toNat_ofInt] at unsigned
  rw [toInt_ofInt] at signed
  refine ⟨⟨b, given, store_ofInt given⟩, ⟨toNat_ofInt value, natCast_wordOf value, unsigned⟩,
    ⟨toInt_ofInt value, signed, range, remainder⟩, ofText_binary_iff.mpr (canonical_ofInt value), ?_⟩
  intro w
  exact ⟨⟨fun _ => mem_octal, ofDigitChars_octal w⟩, ⟨fun _ => mem_binary, ofDigitChars_binary w⟩,
    ofText_binary_iff⟩

end Word

end WordAssembler
