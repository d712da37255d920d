import WordAssembler.Proofs.Bits.Fits
import WordAssembler.Proofs.Bits.Value

namespace WordAssembler.Bits

variable {limit : Option Nat}

theorem requireWidth_natCast (width : Nat) : requireWidth width = .ok () := by
  have nonneg : ¬ (width : Int) < 0 := by omega
  rw [requireWidth, if_neg nonneg]

theorem slice_zero (b : Bits limit) (width : Nat) :
    b.slice 0 width = bitsValue ((List.range' 0 width).map b.bit) := by
  simp only [slice, List.range_eq_range', Nat.zero_add]

theorem readFrom_eq_ok {b : Bits limit} {start n : Nat}
    (admitted : ∀ i < start + n, Admissible limit i) :
    b.readFrom start n = .ok ((List.range' start n).map b.bit) := by
  induction n generalizing start with
  | zero => rfl
  | succ n ih =>
    have shift : start + 1 + n = start + (n + 1) := by omega
    have next : (start : Int) + 1 = (start + 1 : Nat) := by omega
    rw [readFrom, get_natCast (admitted start (by omega)), next, ih (shift ▸ admitted)]
    rfl

theorem take_natCast {b : Bits limit} {width : Nat} (reached : ∀ n ∈ limit, width ≤ n) :
    b.take width = .ok ((List.range' 0 width).map b.bit) := by
  rw [take, Int.toNat_natCast]
  exact readFrom_eq_ok fun i inside => admissible_of_lt reached (Nat.zero_add width ▸ inside)

/-- The number that the bits below a width write with a sign: the first bit, if it is set,
weighs as much below zero as it does above. -/
theorem slice_bmod (b : Bits limit) (width : Nat) :
    (b.slice 0 width : Int).bmod (2 ^ width) =
      if width = 0 ∨ b.bit 0 = false then (b.slice 0 width : Int)
      else b.slice 0 width - 2 ^ width := by
  have below : (b.slice 0 width : Int) < 2 ^ width := by exact_mod_cast b.slice_lt 0 width
  rw [eq_comm, eq_bmod_iff, inSignedRange_iff]
  cases width with
  | zero =>
    rw [if_pos (Or.inl rfl)]
    rw [pow_zero] at below ⊢
    omega
  | succ n =>
    have half : b.bit 0 ↔ (2 : Int) ^ n ≤ b.slice 0 (n + 1) := by
      rw [bit_zero_iff]
      norm_cast
    split
    · rename_i clear
      have low := half.not.mp (Bool.eq_false_iff.mp (clear.resolve_left (Nat.succ_ne_zero n)))
      rw [pow_succ] at below ⊢
      exact ⟨by omega, rfl⟩
    · rename_i set
      have high := half.mp (Bool.not_eq_false _ ▸ fun clear => set (Or.inr clear))
      rw [Int.sub_emod_right]
      rw [pow_succ] at below ⊢
      exact ⟨by omega, rfl⟩

theorem slice_emod (b : Bits limit) (width : Nat) :
    (b.slice 0 width : Int) % 2 ^ width = b.slice 0 width := by
  have below : (b.slice 0 width : Int) < 2 ^ width := by exact_mod_cast b.slice_lt 0 width
  exact Int.emod_eq_of_lt (by omega) below

theorem bit_ofList_range (f : Nat → Bool) (width j : Nat) :
    (ofList ((List.range width).map f) : Bits limit).bit j = (decide (j < width) && f j) := by
  rw [bit_ofList, List.getElem?_map]
  by_cases inside : j < width
  · rw [List.getElem?_range inside, decide_eq_true inside]
    rfl
  · rw [List.getElem?_eq_none_iff.mpr (List.length_range ▸ Nat.not_lt.mp inside),
      decide_eq_false inside]
    rfl

theorem bmod_emod_two_pow (value : Int) (width : Nat) :
    (value % 2 ^ width).bmod (2 ^ width) = value.bmod (2 ^ width) := by
  rw [← natCast_two_pow, Int.emod_bmod]

section

variable [Machine]

theorem weighFrom_succ_eq_ok_iff {b : Bits limit} {start n : Nat}
    (admissible : Admissible limit start) {bits : List Bool} :
    b.weighFrom start (n + 1) = .ok bits ↔ (b.bit start → n ≤ lastExponent) ∧
      ∃ rest, b.weighFrom (start + 1 : Nat) n = .ok rest ∧ b.bit start :: rest = bits := by
  have next : (start : Int) + 1 = (start + 1 : Nat) := by omega
  rw [weighFrom, get_natCast admissible, next]
  cases b.bit start with
  | false =>
    rw [← map_eq_ok_iff]
    simp only [Bool.false_eq_true, false_implies, true_and]
    rfl
  | true =>
    have stored : requirePower n = .ok () ↔ (true = true → n ≤ lastExponent) := by
      rw [requirePower_eq_ok_iff, eq_self, true_implies]
    rw [← map_eq_ok_iff, ← stored]
    exact require_eq_ok_iff

/-- Bits are weighed by the number of those after them, which memory has to hold for the
bits that are set. -/
theorem weighFrom_eq_ok_iff {b : Bits limit} {start n : Nat}
    (admitted : ∀ i < start + n, Admissible limit i) {bits : List Bool} :
    b.weighFrom start n = .ok bits ↔
      (∀ i < start + n, start ≤ i → b.bit i → start + n - 1 - i ≤ lastExponent) ∧
        (List.range' start n).map b.bit = bits := by
  induction n generalizing start bits with
  | zero =>
    have none : ∀ i < start + 0, start ≤ i → b.bit i → start + 0 - 1 - i ≤ lastExponent := by omega
    simp only [weighFrom, Except.ok.injEq, List.range'_zero, List.map_nil]
    exact (and_iff_right none).symm
  | succ n ih =>
    have shift : start + 1 + n = start + (n + 1) := by omega
    have rest := fun bits => @ih (start + 1) (shift ▸ admitted) bits
    -- the first bit has `n` bits after it, and the weights of the others do not change
    have weights : (∀ i < start + (n + 1), start ≤ i → b.bit i →
          start + (n + 1) - 1 - i ≤ lastExponent) ↔
        (b.bit start → n ≤ lastExponent) ∧
          ∀ i < start + (n + 1), start + 1 ≤ i → b.bit i →
            start + (n + 1) - 1 - i ≤ lastExponent := by
      constructor
      · intro all
        refine ⟨fun isSet => ?_, fun i inside after => all i inside (by omega)⟩
        have weight := all start (by omega) le_rfl isSet
        omega
      · rintro ⟨here, later⟩ i inside after isSet
        rcases Nat.eq_or_lt_of_le after with rfl | beyond
        · have weight := here isSet
          omega
        · exact later i inside beyond isSet
    simp only [weighFrom_succ_eq_ok_iff (admitted start (by omega)), rest, shift, weights,
      List.range'_succ, List.map_cons, and_assoc, exists_and_left, exists_eq_left']

/-- Whether memory holds the weight of every bit that is set below a width. -/
def Weighable (b : Bits limit) (width : Nat) : Prop :=
  ∀ i < width, b.bit i → width - 1 - i ≤ lastExponent

theorem weighable_of_le {width : Nat} (held : width ≤ lastExponent + 1) (b : Bits limit) :
    b.Weighable width := by
  intro i inside _
  omega

theorem unsignedValue_eq_ok_iff {b : Bits limit} {width : Nat} (reached : ∀ n ∈ limit, width ≤ n)
    {n : Nat} : b.unsignedValue width = .ok n ↔ b.Weighable width ∧ b.slice 0 width = n := by
  have weighed := fun bits => @weighFrom_eq_ok_iff limit _ b 0 width
    (fun i inside => admissible_of_lt reached (by omega)) bits
  simp only [Nat.zero_add, Nat.zero_le, true_implies, Nat.cast_zero] at weighed
  rw [unsignedValue, requireWidth_natCast, Int.toNat_natCast, slice_zero]
  show (bitsValue <$> b.weighFrom 0 width) = .ok n ↔ _
  simp only [map_eq_ok_iff, weighed, Weighable, and_assoc, exists_and_left, exists_eq_left']

theorem unsignedValue_of_held {width : Nat} (reached : ∀ n ∈ limit, width ≤ n)
    (held : width ≤ lastExponent + 1) (b : Bits limit) :
    b.unsignedValue width = .ok (b.slice 0 width) :=
  (unsignedValue_eq_ok_iff reached).mpr ⟨weighable_of_le held b, rfl⟩

theorem signedValue_of_clear {b : Bits limit} {width : Nat} (reached : ∀ n ∈ limit, width ≤ n)
    (clear : width = 0 ∨ b.bit 0 = false) :
    b.signedValue width = (fun n : Nat => (n : Int)) <$> b.unsignedValue width := by
  rcases Nat.eq_zero_or_pos width with rfl | positive
  · rfl
  have first : b.get 0 = .ok (b.bit 0) := get_natCast (admissible_of_lt reached positive) b
  rw [signedValue, requireWidth_natCast, if_neg (by omega), first,
    clear.resolve_left positive.ne']
  rfl

/-- Below zero all bits are copied, whatever they weigh, so that memory has to hold them. -/
theorem signedValue_of_set {b : Bits limit} {width : Nat} (reached : ∀ n ∈ limit, width ≤ n)
    (positive : 0 < width) (negative : b.bit 0) :
    b.signedValue width = if lastExponent < width then .error .outOfMemory
      else .ok (b.slice 0 width - 2 ^ width : Int) := by
  have first : b.get 0 = .ok (b.bit 0) := get_natCast (admissible_of_lt reached positive) b
  have complement := bitsValue_map_not ((List.range' 0 width).map b.bit)
  rw [← slice_zero, List.length_map, List.length_range'] at complement
  have negated : -(bitsValue (((List.range' 0 width).map b.bit).map not) + 1 : Int) =
      b.slice 0 width - 2 ^ width := by
    have power := natCast_two_pow width
    omega
  rw [signedValue, requireWidth_natCast, if_neg (by omega), first, negative, ← negated]
  show (b.take width >>= fun bits => _) = _
  rw [take_natCast reached]
  simp only [← Nat.cast_lt (α := Int)]
  rfl

/-- The number is that of the slice, taken to the range with a sign. -/
theorem signedValue_eq_ok_iff {b : Bits limit} {width : Nat} (reached : ∀ n ∈ limit, width ≤ n)
    {s : Int} :
    b.signedValue width = .ok s ↔
      (if width = 0 ∨ b.bit 0 = false then b.Weighable width else width ≤ lastExponent) ∧
        (b.slice 0 width : Int).bmod (2 ^ width) = s := by
  rw [slice_bmod]
  split
  · rename_i clear
    rw [signedValue_of_clear reached clear, map_eq_ok_iff]
    simp only [unsignedValue_eq_ok_iff reached, and_assoc, exists_and_left, exists_eq_left']
  · rename_i set
    obtain ⟨positive, negative⟩ := not_or.mp set
    rw [signedValue_of_set reached (Nat.pos_of_ne_zero positive)
      (Bool.eq_true_of_not_eq_false negative)]
    split
    · rename_i beyond
      simp [Nat.not_le.mpr beyond]
    · rename_i held
      simp [Nat.not_lt.mp held]

theorem signedValue_of_held {width : Nat} (reached : ∀ n ∈ limit, width ≤ n)
    (held : width ≤ lastExponent) (b : Bits limit) :
    b.signedValue width = .ok ((b.slice 0 width : Int).bmod (2 ^ width)) := by
  refine (signedValue_eq_ok_iff reached).mpr ⟨?_, rfl⟩
  split
  · exact weighable_of_le (by omega) b
  · exact held

theorem signedValue_range {b : Bits limit} {width : Nat} (reached : ∀ n ∈ limit, width ≤ n)
    {s : Int} (read : b.signedValue width = .ok s) :
    InSignedRange width s ∧ s % 2 ^ width = b.slice 0 width := by
  obtain ⟨range, same⟩ := eq_bmod_iff.mp ((signedValue_eq_ok_iff reached).mp read).2.symm
  exact ⟨range, same.trans (slice_emod b width)⟩

/-- A number is written by its low bits, whatever its size and sign. Memory has to hold
the weight of the first bit, and below zero also as many ones as there are bits. -/
theorem ofInt_eq_ok_iff {value : Int} {width : Nat} {b : BitRow} :
    ofInt value width = .ok b ↔
      (width ≤ lastExponent + 1 ∧ (value < 0 → width ≤ lastExponent)) ∧
        ∀ i, b.bit i = (decide (i < width) && integerBit value (width - 1 - i)) := by
  have written : ∀ c : BitRow, (.ok c : Except BitFault BitRow) = .ok b ↔
      ∀ i, b.bit i = c.bit i := by
    intro c
    rw [Except.ok.injEq, eq_comm]
    exact ⟨fun same i => same ▸ rfl, eq_of_bit⟩
  have weight : requirePower (width - 1) = .ok () ↔ width ≤ lastExponent + 1 := by
    rw [requirePower_eq_ok_iff]
    omega
  rw [ofInt, requireWidth_natCast, Int.toNat_natCast, ← weight, and_assoc]
  refine require_eq_ok_iff.trans ((and_iff_right rfl).trans ?_)
  refine require_eq_ok_iff.trans (and_congr_right fun _ => ?_)
  cases value with
  | ofNat n =>
    have nonneg : ¬ Int.ofNat n < 0 := Int.not_lt.mpr (Int.natCast_nonneg n)
    simp only [nonneg, false_implies, true_and]
    refine (written _).trans (forall_congr' fun i => ?_)
    rw [naturalBits, bit_ofList_range, ← integerBit_natCast]
    rfl
  | negSucc n =>
    have negative : Int.negSucc n < 0 := Int.negSucc_lt_zero n
    simp only [negative, true_implies, ← requirePower_eq_ok_iff]
    refine require_eq_ok_iff.trans (and_congr_right fun _ => ?_)
    refine (written _).trans (forall_congr' fun i => ?_)
    rw [bit_negate, naturalBits, bit_ofList_range, integerBit_negSucc]
    by_cases inside : i < width <;> simp [inside]

theorem bit_ofInt_of_le {value : Int} {width : Nat} {b : BitRow}
    (given : ofInt value width = .ok b) {i : Nat} (outside : width ≤ i) : b.bit i = false := by
  rw [(ofInt_eq_ok_iff.mp given).2, decide_eq_false (by omega), Bool.false_and]

theorem exists_ofInt_iff {value : Int} {width : Nat} :
    (∃ b, ofInt value width = .ok b) ↔
      width ≤ lastExponent + 1 ∧ (value < 0 → width ≤ lastExponent) := by
  constructor
  · rintro ⟨b, given⟩
    exact (ofInt_eq_ok_iff.mp given).1
  · intro held
    refine ⟨ofList ((List.range width).map fun i => integerBit value (width - 1 - i)), ?_⟩
    exact ofInt_eq_ok_iff.mpr ⟨held, fun i => bit_ofList_range _ width i⟩

/-- Writing a number has no other reason to be refused than memory. -/
theorem ofInt_error_cases {value : Int} {width : Nat} {f : BitFault}
    (refused : ofInt value width = .error f) : f = .uncountable ∨ f = .outOfMemory := by
  rw [ofInt, requireWidth_natCast, Int.toNat_natCast] at refused
  rcases bind_eq_error_iff.mp refused with impossible | ⟨_, _, refused⟩
  · contradiction
  rcases bind_eq_error_iff.mp refused with weight | ⟨_, _, refused⟩
  · exact requirePower_error_cases weight
  cases value with
  | ofNat n => contradiction
  | negSucc n =>
    rcases bind_eq_error_iff.mp refused with ones | ⟨_, _, impossible⟩
    · exact requirePower_error_cases ones
    · contradiction

theorem slice_ofInt {value : Int} {width : Nat} {b : BitRow} (given : ofInt value width = .ok b) :
    (b.slice 0 width : Int) = value % 2 ^ width := by
  refine slice_eq_emod fun i inside => ?_
  have place : 0 + (width - 1 - i) < width := by omega
  have back : width - 1 - (0 + (width - 1 - i)) = i := by omega
  rw [(ofInt_eq_ok_iff.mp given).2, decide_eq_true place, Bool.true_and, back]

/-- Whatever its size and sign, a number is written by its low bits, most significant first,
and nothing else is set. Read without a sign they give its remainder, and with a sign the only
number of the signed range that has this remainder, so that every number of either range comes
back. Only memory sets a bound to the width, and below zero one bit earlier. -/
theorem ofInt_readBack (value : Int) (width : Nat) :
    ((∃ b, ofInt value width = .ok b) ↔
      width ≤ lastExponent + 1 ∧ (value < 0 → width ≤ lastExponent)) ∧
    (∀ f, ofInt value width = .error f → f = .uncountable ∨ f = .outOfMemory) ∧
    ∀ b, ofInt value width = .ok b →
      (∀ i < width, integerBitAt value (width - 1 - i) = .ok (b.bit i)) ∧
      (∀ i, width ≤ i → b.bit i = false) ∧
      b.unsignedValue width = .ok (value % 2 ^ width).toNat ∧
      (0 ≤ value → value < 2 ^ width → b.unsignedValue width = .ok value.toNat) ∧
      ((∃ s, b.signedValue width = .ok s) ↔ width ≤ lastExponent ∨ b.bit 0 = false) ∧
      ∀ s, b.signedValue width = .ok s →
        (InSignedRange width s ∧ s % 2 ^ width = value % 2 ^ width) ∧
        (∀ t, InSignedRange width t → t % 2 ^ width = value % 2 ^ width → t = s) ∧
        (InSignedRange width value → s = value) := by
  refine ⟨exists_ofInt_iff, fun f => ofInt_error_cases, fun b given => ?_⟩
  obtain ⟨⟨held, _⟩, bits⟩ := ofInt_eq_ok_iff.mp given
  have number := slice_ofInt given
  have unsigned : b.unsignedValue width = .ok (value % 2 ^ width).toNat := by
    rw [unsignedValue_of_held (unlimited width) held, ← number, Int.toNat_natCast]
  have signed := fun s => @signedValue_eq_ok_iff none _ b width (unlimited width) s
  rw [number, bmod_emod_two_pow] at signed
  refine ⟨fun i inside => ?_, fun i => bit_ofInt_of_le given, unsigned,
    fun nonneg below => ?_, ?_, ?_⟩
  · have place : (width : Int) - 1 - i = (width - 1 - i : Nat) := by omega
    rw [place, integerBitAt_natCast value (by omega), bits, decide_eq_true inside, Bool.true_and]
  · rw [unsigned, Int.emod_eq_of_lt nonneg below]
  · constructor
    · rintro ⟨s, value⟩
      have condition := ((signed s).mp value).1
      split at condition
      · rename_i clear
        exact clear.imp_left fun empty : width = 0 => empty ▸ Nat.zero_le lastExponent
      · exact Or.inl condition
    · intro readable
      refine ⟨_, (signed _).mpr ⟨?_, rfl⟩⟩
      split
      · exact weighable_of_le held b
      · rename_i set
        exact readable.resolve_right fun clear => set (Or.inr clear)
  · intro s read
    have balanced := ((signed s).mp read).2.symm
    have range := eq_bmod_iff.mp balanced
    have unique : ∀ t, InSignedRange width t → t % 2 ^ width = value % 2 ^ width → t = s :=
      fun t inside same => (eq_bmod_iff.mpr ⟨inside, same⟩).trans balanced.symm
    exact ⟨range, unique, fun inside => (unique value inside rfl).symm⟩

end

theorem zeroWritten_refused :
    ofInt 0 (10 ^ 30) = .error .uncountable ∧
      ¬ ∃ b, ofInt 0 (10 ^ 30) = .ok b ∧ b.unsignedValue (10 ^ 30) = .ok 0 := by
  have refused : ofInt 0 (10 ^ 30) = .error .uncountable := by decide +kernel
  refine ⟨refused, ?_⟩
  rintro ⟨b, given, _⟩
  rw [refused] at given
  contradiction

end WordAssembler.Bits
