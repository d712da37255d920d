import Mathlib.Data.Nat.Digits.Defs
import WordAssembler.Proofs.Operand.Byte
import WordAssembler.Proofs.Operand.Trimmed

namespace WordAssembler

/-- What may stand before the digits of a number, and whether it makes the number negative. -/
inductive SignText : List Char → Bool → Prop
  | absent : SignText [] false
  | plus : SignText ['+'] false
  | minus : SignText ['-'] true

/-- Characters that are decimal digits, each of any script, with the values of those digits. -/
abbrev DigitsText : List Char → List Nat → Prop :=
  List.Forall₂ fun c digit => digitValue? c = some digit

/-- A text that spells a number by a sign and at least one digit, the first weighing most. Blanks
around them do not count. -/
inductive Spells : List Char → Bool → List Nat → Prop
  | spelled {before sign body after : List Char} {negative : Bool} {digits : List Nat} :
      (∀ c ∈ before, isBlank c) → SignText sign negative → DigitsText body digits → digits ≠ [] →
      (∀ c ∈ after, isBlank c) → Spells (before ++ (sign ++ body) ++ after) negative digits

/-- The number of a sign and digits. -/
def spelledNumber (negative : Bool) (digits : List Nat) : Int :=
  if negative then -(Nat.ofDigits 10 digits.reverse : Nat)
  else (Nat.ofDigits 10 digits.reverse : Nat)

theorem ofDigitValues_eq_ofDigits (digits : List Nat) :
    ofDigitValues 10 digits = Nat.ofDigits 10 digits.reverse := by
  induction digits using List.reverseRecOn with
  | nil => rfl
  | append_singleton digits last ih =>
    rw [ofDigitValues_append_singleton, List.reverse_append, List.reverse_singleton,
      List.singleton_append, Nat.ofDigits_cons, ih, Nat.add_comm]

theorem spelledNumber_zeros (negative : Bool) (zeros : Nat) (digits : List Nat) :
    spelledNumber negative (List.replicate zeros 0 ++ digits) = spelledNumber negative digits := by
  have value : Nat.ofDigits 10 (List.replicate zeros 0 ++ digits).reverse =
      Nat.ofDigits 10 digits.reverse := by
    rw [List.reverse_append, List.reverse_replicate, Nat.ofDigits_append_replicate_zero]
  rw [spelledNumber, spelledNumber, value]

theorem DigitsText.isSome {body : List Char} {digits : List Nat}
    (spelled : DigitsText body digits) : ∀ c ∈ body, (digitValue? c).isSome := by
  induction spelled with
  | nil => exact List.forall_mem_nil _
  | cons head _ ih => exact List.forall_mem_cons.mpr ⟨Option.isSome_iff_exists.mpr ⟨_, head⟩, ih⟩

theorem DigitsText.filterMap_eq {body : List Char} {digits : List Nat}
    (spelled : DigitsText body digits) : body.filterMap digitValue? = digits := by
  induction spelled with
  | nil => rfl
  | cons head _ ih => rw [List.filterMap_cons_some head, ih]

theorem digitsText_of_isSome {body : List Char} (all : ∀ c ∈ body, (digitValue? c).isSome) :
    DigitsText body (body.filterMap digitValue?) := by
  induction body with
  | nil => exact .nil
  | cons c rest ih =>
    rw [List.forall_mem_cons] at all
    obtain ⟨digit, given⟩ := Option.isSome_iff_exists.mp all.1
    rw [List.filterMap_cons_some given]
    exact .cons given (ih all.2)

theorem SignText.not_isBlank {sign : List Char} {negative : Bool}
    (isSign : SignText sign negative) : ∀ c ∈ sign, isBlank c = false := by
  cases isSign with
  | absent => exact List.forall_mem_nil _
  | plus | minus => exact List.forall_mem_singleton.mpr rfl

theorem SignText.splitSign_append {sign : List Char} {negative : Bool}
    (isSign : SignText sign negative) {body : List Char} (digits : ∀ c ∈ body, (digitValue? c).isSome) :
    splitSign (sign ++ body) = (negative, body) := by
  cases isSign with
  | absent => exact splitSign_of_digits digits
  | plus => rfl
  | minus => rfl

theorem exists_signText_append (s : List Char) :
    ∃ sign, SignText sign (splitSign s).1 ∧ s = sign ++ (splitSign s).2 := by
  unfold splitSign
  split
  · exact ⟨_, .minus, rfl⟩
  · exact ⟨_, .plus, rfl⟩
  · exact ⟨_, .absent, rfl⟩

/-- What is left of a spelled number without the blanks around it is the numeral that is read. -/
theorem Spells.numeral {text : List Char} {negative : Bool} {digits : List Nat}
    (spells : Spells text negative digits) :
    IsNumeral (trim text) ∧ digitCount (trim text) = digits.length ∧
      numeralValue (trim text) = spelledNumber negative digits := by
  obtain ⟨blank, isSign, spelled, someDigit, blank'⟩ := spells
  rename_i before sign body after
  have all := spelled.isSome
  have solid : ∀ c ∈ sign ++ body, isBlank c = false := by
    intro c member
    rcases List.mem_append.mp member with inSign | inBody
    · exact isSign.not_isBlank c inSign
    · obtain ⟨digit, given⟩ := Option.isSome_iff_exists.mp (all c inBody)
      exact isBlank_of_digitValue? given
  have some : body ≠ [] := by
    rintro rfl
    exact someDigit spelled.filterMap_eq.symm
  rw [trim_between_blanks blank blank', trim_of_no_blanks solid, IsNumeral, digitCount, numeralValue,
    isSign.splitSign_append all, spelled.filterMap_eq, ofDigitValues_eq_ofDigits]
  exact ⟨⟨some, all⟩, spelled.length_eq, rfl⟩

theorem exists_spells {text : List Char} (numeral : IsNumeral (trim text)) :
    ∃ negative digits, Spells text negative digits := by
  obtain ⟨before, after, split, blank, blank'⟩ := exists_eq_append_trim text
  obtain ⟨sign, isSign, parts⟩ := exists_signText_append (trim text)
  have spelled := digitsText_of_isSome numeral.2
  have someDigit : (splitSign (trim text)).2.filterMap digitValue? ≠ [] := by
    rw [← List.length_pos_iff, ← spelled.length_eq, List.length_pos_iff]
    exact numeral.1
  have whole := Spells.spelled blank isSign spelled someDigit blank'
  rw [← parts, ← split] at whole
  exact ⟨_, _, whole⟩

theorem isNumeral_trim_iff {text : List Char} :
    IsNumeral (trim text) ↔ ∃ negative digits, Spells text negative digits :=
  ⟨exists_spells, fun ⟨_, _, spells⟩ => spells.numeral.1⟩

/-- What reading an operand may give. A number out of range is reported as it is, and what
spells no number as the whole text; both name the operand and its column. -/
inductive ByteReading (text : List Char) (name : String) (column : Option Int) :
    Except LineFault Int → Prop
  | value {negative : Bool} {digits : List Nat} : Spells text negative digits →
      digits.length ≤ maxDigits →
      -128 ≤ spelledNumber negative digits → spelledNumber negative digits ≤ 127 →
      ByteReading text name column (.ok (spelledNumber negative digits))
  | outOfRange {negative : Bool} {digits : List Nat} : Spells text negative digits →
      digits.length ≤ maxDigits →
      spelledNumber negative digits < -128 ∨ 127 < spelledNumber negative digits →
      ByteReading text name column
        (.error (.reported (.operand name (.outOfRange (spelledNumber negative digits)) column)))
  | notANumber : (¬ ∃ negative digits, Spells text negative digits) →
      ByteReading text name column (.error (.reported (.operand name (.notANumber text) column)))
  | overlong {negative : Bool} {digits : List Nat} : Spells text negative digits →
      maxDigits < digits.length →
      ByteReading text name column (.error (.tooManyDigits digits.length))

theorem readByte_of_spells {text : List Char} {negative : Bool} {digits : List Nat}
    (spells : Spells text negative digits) (name : String) (column : Option Int) :
    readByte text name column =
      if maxDigits < digits.length then .error (.tooManyDigits digits.length)
      else if -128 ≤ spelledNumber negative digits ∧ spelledNumber negative digits ≤ 127 then
        .ok (spelledNumber negative digits)
      else .error (.reported
        (.operand name (.outOfRange (spelledNumber negative digits)) column)) := by
  obtain ⟨numeral, count, value⟩ := spells.numeral
  rw [readByte_eq, if_pos numeral, count, value]

theorem readByte_eq_iff_reading {text : List Char} {name : String} {column : Option Int}
    {result : Except LineFault Int} :
    readByte text name column = result ↔ ByteReading text name column result := by
  constructor
  · rintro rfl
    by_cases numeral : ∃ negative digits, Spells text negative digits
    · obtain ⟨negative, digits, spells⟩ := numeral
      rw [readByte_of_spells spells]
      split_ifs with long fits
      · exact .overlong spells long
      · exact .value spells (Nat.not_lt.mp long) fits.1 fits.2
      · exact .outOfRange spells (Nat.not_lt.mp long) (by omega)
    · rw [readByte_eq, if_neg (isNumeral_trim_iff.not.mpr numeral)]
      exact .notANumber numeral
  · intro reading
    cases reading with
    | value spells short low high =>
      rw [readByte_of_spells spells, if_neg (Nat.not_lt.mpr short), if_pos ⟨low, high⟩]
    | outOfRange spells short beyond =>
      rw [readByte_of_spells spells, if_neg (Nat.not_lt.mpr short), if_neg (by omega)]
    | notANumber other => rw [readByte_eq, if_neg (isNumeral_trim_iff.not.mpr other)]
    | overlong spells long => rw [readByte_of_spells spells, if_pos long]

/-- An operand is read as the number that it spells if that is a signed byte, and is at fault
otherwise, as it stands. Of a number only the sign and the digits count: not the blanks around it,
not zeros in front, and not the scripts of its digits. Only more digits than are read at all end in
another fault. -/
theorem readByte_spelled (text : List Char) (name : String) (column : Option Int) :
    (∀ result, readByte text name column = result ↔ ByteReading text name column result) ∧
    (∀ before after, (∀ c ∈ before, isBlank c) → (∀ c ∈ after, isBlank c) →
      (readByte (before ++ text ++ after) name column).mapError LineFault.outline =
        (readByte text name column).mapError LineFault.outline) ∧
    ∀ (other : List Char) (negative : Bool) (digits : List Nat) (zeros : Nat),
      Spells text negative digits → Spells other negative (List.replicate zeros 0 ++ digits) →
      zeros + digits.length ≤ maxDigits →
      readByte other name column = readByte text name column := by
  refine ⟨fun result => readByte_eq_iff_reading, fun before after blank blank' => ?_,
    fun other negative digits zeros spells longer short => ?_⟩
  · exact readByte_outline (trim_between_blanks blank blank' text) name column column
  · have kept : ¬ maxDigits < digits.length := by omega
    have extended : ¬ maxDigits < (List.replicate zeros 0 ++ digits).length := by
      rw [List.length_append, List.length_replicate]
      omega
    rw [readByte_of_spells longer, readByte_of_spells spells, spelledNumber_zeros, if_neg kept,
      if_neg extended]

end WordAssembler
