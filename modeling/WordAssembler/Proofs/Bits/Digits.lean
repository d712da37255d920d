import WordAssembler.Proofs.Bits.Value

namespace WordAssembler.Bits

variable {limit : Option Nat}

/-- Digits are weighed as their bits are. -/
theorem ofDigitChars_digits (bits : List Bool) :
    Nat.ofDigitChars 2 (digits bits) 0 = bitsValue bits := by
  have weights : (fun (value : Nat) (bit : Bool) =>
        2 * value + ((if bit then '1' else '0').toNat - '0'.toNat)) =
      fun value bit => 2 * value + bit.toNat := by
    funext value bit
    cases bit <;> rfl
  rw [Nat.ofDigitChars, digits, List.foldl_map, weights]
  rfl

theorem addDigit_digit {i : Nat} (admissible : Admissible limit i) (bit : Bool) (b : Bits limit) :
    b.addDigit (if bit then '1' else '0', i) = .ok (if bit then b.put i true else b) := by
  cases bit with
  | false => rfl
  | true =>
    show (requireIndex limit i >>= fun _ => .ok (b.put i true)) = .ok (b.put i true)
    rw [requireIndex_eq_ok_iff.mpr admissible]
    rfl

/-- Digits that are read from the index `start` on set bits there and change nothing else. -/
theorem foldlM_addDigit (bits : List Bool) {start : Nat} (b : Bits limit)
    (admitted : ∀ i < start + bits.length, Admissible limit i) :
    ∃ c, ((digits bits).zipIdx start).foldlM addDigit b = .ok c ∧
      ∀ j, c.bit j = (b.bit j || decide (start ≤ j) && bits[j - start]?.getD false) := by
  induction bits generalizing start b with
  | nil =>
    refine ⟨b, rfl, fun j => ?_⟩
    simp only [List.getElem?_nil, Option.getD_none, Bool.and_false, Bool.or_false]
  | cons first rest ih =>
    have shift : start + 1 + rest.length = start + (first :: rest).length := by
      simp only [List.length_cons]
      omega
    have here : start < start + (first :: rest).length := by omega
    obtain ⟨c, read, bits⟩ :=
      @ih (start + 1) (if first then b.put start true else b) (shift ▸ admitted)
    refine ⟨c, ?_, fun j => ?_⟩
    · show (b.addDigit (if first then '1' else '0', start) >>= fun next =>
        ((digits rest).zipIdx (start + 1)).foldlM addDigit next) = .ok c
      rw [addDigit_digit (admitted start here)]
      exact read
    · have head : (if first then b.put start true else b).bit j =
          (b.bit j || decide (start = j) && first) := by
        by_cases atStart : start = j <;> cases first <;> simp [atStart]
      rw [bits, head, Bool.or_assoc]
      congr 1
      rcases Nat.lt_trichotomy j start with before | rfl | after
      · rw [decide_eq_false (by omega : ¬ start = j), decide_eq_false (by omega : ¬ start + 1 ≤ j),
          decide_eq_false (by omega : ¬ start ≤ j)]
        rfl
      · rw [decide_eq_true rfl, decide_eq_false (by omega : ¬ j + 1 ≤ j), decide_eq_true le_rfl,
          Nat.sub_self]
        cases first <;> rfl
      · have place : j - start = j - (start + 1) + 1 := by omega
        rw [decide_eq_false (by omega : ¬ start = j), decide_eq_true (by omega : start + 1 ≤ j),
          decide_eq_true (by omega : start ≤ j), place, List.getElem?_cons_succ]
        rfl

/-- A row is read back from the digits of its first bits. -/
theorem ofText_digits {bits : List Bool} (room : ∀ n ∈ limit, bits.length ≤ n) :
    ofText (digits bits) = .ok (ofList bits : Bits limit) := by
  have digitsOnly : (digits bits).filter (· ≠ '_') = digits bits := by
    refine List.filter_eq_self.mpr fun c member => ?_
    obtain ⟨bit, _, rfl⟩ := List.mem_map.mp member
    cases bit <;> rfl
  have admitted : ∀ i < 0 + bits.length, Admissible limit i :=
    fun i inside => admissible_of_lt room (by omega)
  obtain ⟨c, read, bits⟩ := foldlM_addDigit bits (blank : Bits limit) admitted
  rw [ofText, digitsOnly, read]
  refine congrArg Except.ok (eq_of_bit fun j => ?_)
  rw [bits, bit_blank, bit_ofList, Bool.false_or, decide_eq_true (Nat.zero_le j), Bool.true_and,
    Nat.sub_zero]

end WordAssembler.Bits
