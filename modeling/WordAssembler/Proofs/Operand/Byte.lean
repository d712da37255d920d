import WordAssembler.Operand
import WordAssembler.Proofs.Text.Numeral

namespace WordAssembler

/-- A numeral of `count` digits, blanks around it aside, which are more digits
than are read. -/
def Overlong (text : List Char) (count : Nat) : Prop :=
  IsNumeral (trim text) ∧ digitCount (trim text) = count ∧ maxDigits < count

theorem trim_sublist (s : List Char) : (trim s).Sublist s := by
  have ends := (List.dropWhile_sublist isBlank (l := (trimStart s).reverse)).reverse
  rw [List.reverse_reverse] at ends
  exact ends.trans (List.dropWhile_sublist isBlank)

theorem splitSign_sublist (s : List Char) : (splitSign s).2.Sublist s := by
  unfold splitSign
  split
  · exact List.sublist_cons_self _ _
  · exact List.sublist_cons_self _ _
  · exact List.Sublist.refl _

/-- A short text is never overlong, so that the single character of a column
cannot be. -/
theorem Overlong.length {text : List Char} {count : Nat} (long : Overlong text count) :
    maxDigits < text.length := by
  obtain ⟨_, counted, above⟩ := long
  have within := ((splitSign_sublist (trim text)).trans (trim_sublist text)).length_le
  unfold digitCount at counted
  omega

theorem overlong_of_isDigit {s : List Char} (digits : ∀ c ∈ s, c.isDigit)
    (long : maxDigits < s.length) : Overlong s s.length := by
  have trimmed : trim s = s :=
    trim_of_no_blanks fun c member => isBlank_of_isDigit (digits c member)
  have body := splitSign_of_isDigit digits
  have someDigit : s ≠ [] := by
    rintro rfl
    exact Nat.not_lt_zero _ long
  rw [Overlong, trimmed, IsNumeral, digitCount, body]
  refine ⟨⟨someDigit, fun c member => ?_⟩, rfl, long⟩
  rw [digitValue?_of_isDigit (digits c member)]
  rfl

theorem readByte_eq_tooManyDigits_iff {text : List Char} {name : String} {column : Option Int}
    {count : Nat} :
    readByte text name column = .error (.tooManyDigits count) ↔ Overlong text count := by
  rw [Overlong, ← readInteger_eq_tooManyDigits_iff]
  unfold readByte
  cases given : readInteger (trim text) with
  | ok value =>
    simp only [reduceCtorEq, iff_false]
    split <;> simp
  | error fault => cases fault <;> simp

/-- A numeral of a number that fits a signed byte, blanks around it aside. -/
def ByteText (text : List Char) (value : Int) : Prop :=
  IsNumeral (trim text) ∧ digitCount (trim text) ≤ maxDigits ∧
    numeralValue (trim text) = value ∧ -128 ≤ value ∧ value ≤ 127

/-- What is wrong with a text that is not the numeral of a byte, as long as it is
not overlong. -/
inductive ByteFault (text : List Char) : OperandFault → Prop
  | notANumber : ¬ IsNumeral (trim text) → ByteFault text (.notANumber text)
  | outOfRange {value : Int} : IsNumeral (trim text) → digitCount (trim text) ≤ maxDigits →
      numeralValue (trim text) = value → value < -128 ∨ 127 < value →
      ByteFault text (.outOfRange value)

/-- A text is read by its numeral, or it is at fault as it stands. -/
theorem readByte_eq (text : List Char) (name : String) (column : Option Int) :
    readByte text name column =
      if IsNumeral (trim text) then
        if maxDigits < digitCount (trim text) then .error (.tooManyDigits (digitCount (trim text)))
        else if -128 ≤ numeralValue (trim text) ∧ numeralValue (trim text) ≤ 127 then
          .ok (numeralValue (trim text))
        else .error (.reported (.operand name (.outOfRange (numeralValue (trim text))) column))
      else .error (.reported (.operand name (.notANumber text) column)) := by
  unfold readByte
  by_cases numeral : IsNumeral (trim text)
  · rw [readInteger_of_isNumeral numeral, if_pos numeral]
    by_cases long : maxDigits < digitCount (trim text)
    · rw [if_pos long, if_pos long]
    · rw [if_neg long, if_neg long]
  · rw [readInteger_of_not_isNumeral numeral, if_neg numeral]

theorem readByte_eq_ok_iff {text : List Char} {name : String} {column : Option Int}
    {value : Int} : readByte text name column = .ok value ↔ ByteText text value := by
  rw [readByte_eq, ByteText]
  constructor
  · intro given
    split_ifs at given with numeral long fits
    obtain rfl := Except.ok.inj given
    exact ⟨numeral, Nat.not_lt.mp long, rfl, fits⟩
  · rintro ⟨numeral, short, rfl, fits⟩
    rw [if_pos numeral, if_neg (Nat.not_lt.mpr short), if_pos fits]

/-- A fault of an operand names it, and stands where the operand does. -/
theorem readByte_eq_reported_iff {text : List Char} {name : String} {column : Option Int}
    {e : LineError} :
    readByte text name column = .error (.reported e) ↔
      ∃ fault, ByteFault text fault ∧ e = .operand name fault column := by
  rw [readByte_eq]
  constructor
  · intro failed
    split_ifs at failed with numeral long fits
    · cases failed
    · cases failed
      exact ⟨_, .outOfRange numeral (Nat.not_lt.mp long) rfl (by omega), rfl⟩
    · cases failed
      exact ⟨_, .notANumber numeral, rfl⟩
  · rintro ⟨fault, faulty, rfl⟩
    cases faulty with
    | notANumber other => rw [if_neg other]
    | outOfRange numeral short given beyond =>
      rw [if_pos numeral, if_neg (Nat.not_lt.mpr short), given, if_neg (by omega)]

theorem trim_digit {c : Char} {digit : Nat} (given : digitValue? c = some digit) :
    trim [c] = [c] :=
  trim_of_no_blanks fun _ member => List.mem_singleton.mp member ▸ isBlank_of_digitValue? given

theorem splitSign_digit {c : Char} {digit : Nat} (given : digitValue? c = some digit) :
    splitSign [c] = (false, [c]) := by
  refine splitSign_of_digits ?_
  rw [List.forall_mem_singleton, given]
  rfl

/-- A single character is a numeral exactly if it is a decimal digit: a sign asks for
digits behind it. -/
theorem isNumeral_singleton_iff {c : Char} :
    IsNumeral (trim [c]) ↔ ∃ digit, digitValue? c = some digit := by
  constructor
  · rintro ⟨someDigit, digits⟩
    obtain ⟨d, first⟩ := List.exists_mem_of_ne_nil _ someDigit
    have inside := (splitSign_sublist (trim [c])).mem first
    obtain rfl : d = c := List.mem_singleton.mp ((trim_sublist [c]).mem inside)
    exact Option.isSome_iff_exists.mp (digits d first)
  · rintro ⟨digit, given⟩
    rw [trim_digit given, IsNumeral, splitSign_digit given]
    refine ⟨List.cons_ne_nil c [], ?_⟩
    rw [List.forall_mem_singleton, given]
    rfl

theorem numeralValue_digit {c : Char} {digit : Nat} (given : digitValue? c = some digit) :
    numeralValue (trim [c]) = digit := by
  rw [trim_digit given, numeralValue, splitSign_digit given, List.filterMap_cons_some given]
  exact congrArg Nat.cast (Nat.zero_add digit)

theorem byteText_singleton_iff {c : Char} {value : Int} :
    ByteText [c] value ↔ ∃ digit, digitValue? c = some digit ∧ value = digit := by
  constructor
  · rintro ⟨numeral, _, rfl, _⟩
    obtain ⟨digit, given⟩ := isNumeral_singleton_iff.mp numeral
    exact ⟨digit, given, numeralValue_digit given⟩
  · rintro ⟨digit, given, rfl⟩
    have below := digitValue?_lt_ten given
    have single : digitCount (trim [c]) = 1 := by
      rw [trim_digit given, digitCount, splitSign_digit given]
      rfl
    refine ⟨isNumeral_singleton_iff.mpr ⟨digit, given⟩, ?_, numeralValue_digit given, ?_, ?_⟩
    · rw [single]
      decide
    · omega
    · omega

/-- A digit is never out of range, so that a single character is at fault only if it is
no digit. -/
theorem byteFault_singleton_iff {c : Char} {fault : OperandFault} :
    ByteFault [c] fault ↔ digitValue? c = none ∧ fault = .notANumber [c] := by
  constructor
  · intro faulty
    cases faulty with
    | notANumber other =>
      refine ⟨Option.eq_none_iff_forall_ne_some.mpr fun digit given => ?_, rfl⟩
      exact other (isNumeral_singleton_iff.mpr ⟨digit, given⟩)
    | outOfRange numeral _ given beyond =>
      obtain ⟨digit, isDigit⟩ := isNumeral_singleton_iff.mp numeral
      obtain ⟨_, _, same, low, high⟩ := byteText_singleton_iff.mpr ⟨digit, isDigit, rfl⟩
      omega
  · rintro ⟨noDigit, rfl⟩
    refine .notANumber fun numeral => ?_
    obtain ⟨digit, given⟩ := isNumeral_singleton_iff.mp numeral
    rw [noDigit] at given
    cases given

theorem readByte_toDigits {n : Nat} (small : n ≤ 127) (name : String) (column : Option Int) :
    readByte (Nat.toDigits 10 n) name column = .ok n := by
  have solid : ∀ c ∈ Nat.toDigits 10 n, isBlank c = false := fun c member =>
    isBlank_of_isDigit (isDigit_of_mem_toDigits member)
  have short : (Nat.toDigits 10 n).length ≤ 3 :=
    (Nat.length_toDigits_le_iff (by decide) (by decide)).mpr (by omega)
  have fits : -128 ≤ (n : Int) ∧ (n : Int) ≤ 127 := by omega
  have given : readInteger (trim (Nat.toDigits 10 n)) = .ok n := by
    rw [trim_of_no_blanks solid]
    exact readInteger_toDigits (Nat.le_trans short (by decide))
  simp only [readByte, given, if_pos fits]

end WordAssembler
