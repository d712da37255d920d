import WordAssembler.Proofs.Bits.Conversion
import WordAssembler.Proofs.Bits.Digits
import WordAssembler.Proofs.Bits.Flip

namespace WordAssembler.Bits

variable {limit : Option Nat}

/-- The characters of a text but for the underscores that set its digits apart. -/
def withoutUnderscores (text : List Char) : List Char :=
  text.filter (· ≠ '_')

/-- The characters of which a row is read. -/
def bitChars : List Char :=
  ['0', '1', '_']

theorem digits_of_bitChars {text : List Char} (all : ∀ c ∈ text, c ∈ bitChars) :
    digits ((withoutUnderscores text).map (· == '1')) = withoutUnderscores text := by
  have digit : ∀ c ∈ bitChars, c ≠ '_' → (if c == '1' then '1' else '0') = c := by
    intro c member other
    rcases List.mem_cons.mp member with rfl | later
    · rfl
    rcases List.mem_pair.mp later with rfl | rfl
    · rfl
    · contradiction
  rw [digits, List.map_map]
  refine (List.map_congr_left fun c member => ?_).trans (List.map_id _)
  obtain ⟨inText, notUnderscore⟩ := List.mem_filter.mp member
  exact digit c (all c inText) (of_decide_eq_true notUnderscore)

theorem ofText_of_bitChars {text : List Char} (all : ∀ c ∈ text, c ∈ bitChars) :
    ofText text = .ok (ofList ((withoutUnderscores text).map (· == '1')) : BitRow) := by
  have again : (withoutUnderscores text).filter (· ≠ '_') = withoutUnderscores text :=
    List.filter_eq_self.mpr fun c member => (List.mem_filter.mp member).2
  rw [← ofText_digits (unlimited _), digits_of_bitChars all, ofText, ofText, again]
  rfl

/-- A text is refused at the first character that a row is not read from. -/
theorem ofText_of_other {before : List Char} (all : ∀ d ∈ before, d ∈ bitChars) {c : Char}
    (other : c ∉ bitChars) (after : List Char) :
    (ofText (before ++ c :: after) : Except BitFault BitRow) = .error (.notABit c) := by
  simp only [bitChars, List.mem_cons, List.not_mem_nil, or_false, not_or] at other
  obtain ⟨notZero, notOne, notUnderscore⟩ := other
  have cut : (before ++ c :: after).filter (· ≠ '_') =
      withoutUnderscores before ++ c :: withoutUnderscores after := by
    rw [List.filter_append, List.filter_cons, if_pos (decide_eq_true notUnderscore)]
    rfl
  obtain ⟨row, read, _⟩ := foldlM_addDigit ((withoutUnderscores before).map (· == '1'))
    (blank : BitRow) (fun i _ => admissible_of_lt (unlimited (i + 1)) (Nat.lt_succ_self i))
  rw [digits_of_bitChars all] at read
  rw [ofText, cut, List.zipIdx_append, List.foldlM_append, read, List.zipIdx_cons]
  show (row.addDigit (c, _) >>= fun next => _) = _
  rw [addDigit, if_neg notOne, if_neg notZero]
  rfl

theorem ofText_eq_error_iff {text : List Char} {f : BitFault} :
    (ofText text : Except BitFault BitRow) = .error f ↔
      ∃ c, text.find? (· ∉ bitChars) = some c ∧ f = .notABit c := by
  cases found : text.find? (· ∉ bitChars) with
  | none =>
    have all : ∀ c ∈ text, c ∈ bitChars := by
      simpa only [List.find?_eq_none, decide_eq_true_eq, not_not] using found
    rw [ofText_of_bitChars all]
    simp only [reduceCtorEq, false_and, exists_false]
  | some c =>
    obtain ⟨other, before, after, rfl, all⟩ := List.find?_eq_some_iff_append.mp found
    have start : ∀ d ∈ before, d ∈ bitChars := by simpa using all
    rw [ofText_of_other start (of_decide_eq_true other)]
    simp only [Except.error.injEq, Option.some.injEq, exists_eq_left', eq_comm]

theorem exists_ofText_error_iff {text : List Char} :
    (∃ f, (ofText text : Except BitFault BitRow) = .error f) ↔ ∃ c ∈ text, c ∉ bitChars := by
  simp only [ofText_eq_error_iff]
  rw [exists_comm]
  simp only [exists_and_left, exists_eq, and_true, ← Option.isSome_iff_exists, List.find?_isSome,
    decide_eq_true_eq]

theorem ofText_eq_ok_iff {text : List Char} {b : BitRow} :
    ofText text = .ok b ↔ (∀ c ∈ text, c ∈ bitChars) ∧
      ofList ((withoutUnderscores text).map (· == '1')) = b := by
  constructor
  · intro read
    have all : ∀ c ∈ text, c ∈ bitChars := by
      by_contra other
      push Not at other
      obtain ⟨f, refused⟩ := exists_ofText_error_iff.mpr other
      rw [read] at refused
      contradiction
    exact ⟨all, Except.ok.inj ((ofText_of_bitChars all).symm.trans read)⟩
  · rintro ⟨all, rfl⟩
    exact ofText_of_bitChars all

theorem digitsOfWidth_natCast {b : Bits limit} {width : Nat} (reached : ∀ n ∈ limit, width ≤ n) :
    b.digitsOfWidth width = .ok (digits ((List.range' 0 width).map b.bit)) := by
  rw [digitsOfWidth, requireWidth_natCast]
  show (digits <$> b.take width) = _
  rw [take_natCast reached]
  rfl

theorem map_bit_ofList (bits : List Bool) :
    (List.range' 0 bits.length).map (ofList bits : Bits limit).bit = bits := by
  refine List.ext_getElem (by rw [List.length_map, List.length_range']) fun i _ inside => ?_
  rw [List.getElem_map, List.getElem_range', bit_ofList, Nat.one_mul, Nat.zero_add,
    List.getElem?_eq_getElem inside, Option.getD_some]

/-- The bits of a row that is read from a text are written as the text without underscores. -/
theorem digits_ofText {text : List Char} {b : BitRow} (read : ofText text = .ok b) :
    digits ((List.range' 0 (withoutUnderscores text).length).map b.bit) =
      withoutUnderscores text := by
  obtain ⟨all, rfl⟩ := ofText_eq_ok_iff.mp read
  have bits := @map_bit_ofList none ((withoutUnderscores text).map (· == '1'))
  rw [List.length_map] at bits
  rw [bits, digits_of_bitChars all]

theorem digitsOfWidth_ofText {text : List Char} {b : BitRow} (read : ofText text = .ok b) :
    b.digitsOfWidth (withoutUnderscores text).length = .ok (withoutUnderscores text) := by
  rw [digitsOfWidth_natCast (unlimited _), digits_ofText read]

theorem unsignedValue_ofText_iff [Machine] {text : List Char} {b : BitRow}
    (read : ofText text = .ok b) {n : Nat} : b.unsignedValue (withoutUnderscores text).length = .ok n ↔
      b.Weighable (withoutUnderscores text).length ∧
        Nat.ofDigitChars 2 (withoutUnderscores text) 0 = n := by
  have value := ofDigitChars_digits ((List.range' 0 (withoutUnderscores text).length).map b.bit)
  rw [digits_ofText read] at value
  rw [unsignedValue_eq_ok_iff (unlimited _), slice_zero, value]

/-- A row and its digits give each other. A text is refused if it holds another character than
digits and underscores, and the first such one is named; a row that is read from a text writes its
digits again, with nothing set after them, and the number that they write as far as memory holds
their weights. Conversely the digits of a row are read as the row itself, cut to their number. A
range that a limit admits and memory holds is flipped bit by bit, and a second time back. -/
theorem ofText_readBack [Machine] :
    (∀ text : List Char,
      ((∃ f, (ofText text : Except BitFault BitRow) = .error f) ↔ ∃ c ∈ text, c ∉ bitChars) ∧
      (∀ f, (ofText text : Except BitFault BitRow) = .error f →
        ∃ c, text.find? (· ∉ bitChars) = some c ∧ f = .notABit c) ∧
      ∀ b : BitRow, ofText text = .ok b →
        b.digitsOfWidth (withoutUnderscores text).length = .ok (withoutUnderscores text) ∧
        (∀ i, (withoutUnderscores text).length ≤ i → b.bit i = false) ∧
        ((withoutUnderscores text).length ≤ lastExponent + 1 →
          b.unsignedValue (withoutUnderscores text).length =
            .ok (Nat.ofDigitChars 2 (withoutUnderscores text) 0)) ∧
        ∀ n, b.unsignedValue (withoutUnderscores text).length = .ok n ↔
          b.Weighable (withoutUnderscores text).length ∧
            Nat.ofDigitChars 2 (withoutUnderscores text) 0 = n) ∧
    (∀ (limit : Option Nat) (b : Bits limit) (width : Nat), (∀ n ∈ limit, width ≤ n) →
      ∃ text, ∃ c : BitRow, b.digitsOfWidth width = .ok text ∧ ofText text = .ok c ∧
        ∀ i, c.bit i = (decide (i < width) && b.bit i)) ∧
    ∀ (limit : Option Nat) (b : Bits limit) (start stop : Nat), start ≤ stop →
      ((∃ after, b.flip start stop = .ok after) ↔
        Admissible limit (max ((stop : Int) - 1) start) ∧ FlipHeld start (stop - start)) ∧
      ∀ after, b.flip start stop = .ok after →
        (∀ i, after.bit i = (b.bit i ^^ decide (start ≤ i ∧ i < stop))) ∧
          after.flip start stop = .ok b := by
  refine ⟨fun text =>
      ⟨exists_ofText_error_iff, fun f => ofText_eq_error_iff.mp, fun b read => ?_⟩,
    fun limit b width reached => ?_, fun limit b start stop ordered => ⟨?_, fun after given => ?_⟩⟩
  · have number := @unsignedValue_ofText_iff _ text b read
    refine ⟨digitsOfWidth_ofText read, fun i outside => ?_,
      fun held => number.mpr ⟨weighable_of_le held b, rfl⟩, fun n => number⟩
    obtain ⟨_, rfl⟩ := ofText_eq_ok_iff.mp read
    rw [bit_ofList, List.getElem?_eq_none (by rwa [List.length_map])]
    rfl
  · refine ⟨_, _, digitsOfWidth_natCast reached, ofText_digits (unlimited _), fun i => ?_⟩
    rw [← List.range_eq_range', bit_ofList_range]
  · simp only [flip_natCast_eq_ok_iff ordered, exists_and_left, exists_eq', and_true]
  · obtain ⟨admitted, rfl⟩ := (flip_natCast_eq_ok_iff ordered).mp given
    refine ⟨fun i => ?_, (flip_natCast_eq_ok_iff ordered).mpr ⟨admitted, negate_negate b _ _⟩⟩
    rw [bit_negate, Nat.add_sub_of_le ordered]

/-- A word has no more than its own bits, and memory does not hold any number of ones. -/
theorem ofText_readBack_refused :
    (blank : Word).digitsOfWidth (19 : Nat) = .error (.index 18 (some wordWidth)) ∧
      (blank : Word).flip (0 : Nat) (19 : Nat) = .error (.index 18 (some wordWidth)) ∧
      (blank : BitRow).flip (0 : Nat) (10 ^ 30 : Nat) = .error .uncountable :=
  ⟨by decide +kernel, by decide +kernel, by decide +kernel⟩

end WordAssembler.Bits
