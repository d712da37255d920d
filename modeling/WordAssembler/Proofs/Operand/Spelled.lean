import WordAssembler.Proofs.Operand.Grammar

namespace WordAssembler

section

variable (text : List Char)

/-- The line has a decimal digit of any script at a column. -/
def DigitAt (column : Nat) (value : Int) : Prop :=
  ∃ c digit, text[column]? = some c ∧ digitValue? c = some digit ∧ value = digit

/-- The line has a token with a number, which is the numeral of a byte. Tokens are
counted from zero, and the first one holds the mnemonic. -/
def ByteTokenAt (index : Nat) (value : Int) : Prop :=
  ∃ piece, (tokens text)[index]? = some piece ∧ ByteText piece value

/-- The line has no token with a number, which counts as zero, or it has one that is
the numeral of a byte. -/
def OptionalByteTokenAt (index : Nat) (value : Int) : Prop :=
  (tokens text)[index]? = none ∧ value = 0 ∨ ByteTokenAt text index value

/-- What a line holds when its operands are spelled as a format asks for. Only the last
format measures its column from the mnemonic. -/
def Spelled (key : List Char) (operands : Operands) : Format → Prop
  | .one =>
    DigitAt text 4 (operands .register) ∧ ByteTokenAt text 1 (operands .indexRegister) ∧
      ByteTokenAt text 2 (operands .address) ∧ OptionalByteTokenAt text 3 (operands .indirection)
  | .two =>
    DigitAt text 4 (operands .indexRegister) ∧ ByteTokenAt text 1 (operands .address) ∧
      OptionalByteTokenAt text 2 (operands .indirection)
  | .three => DigitAt text 4 (operands .register) ∧ ByteTokenAt text 1 (operands .address)
  | .four => ByteText (text.drop 4) (operands .address)
  | .five => DigitAt text 4 (operands .registerX)
  | .six => DigitAt text 4 (operands .registerX) ∧ ByteTokenAt text 1 (operands .registerY)
  | .seven =>
    DigitAt text 4 (operands .register) ∧ ByteTokenAt text 1 (operands .count) ∧
      ByteTokenAt text 2 (operands .leftRight) ∧ ByteTokenAt text 3 (operands .arithmeticLogical)
  | .eight =>
    DigitAt text (key.length + 1) (operands .register) ∧ ByteTokenAt text 1 (operands .device)

/-- What stands at a place is an operand with a value. -/
def Place.Holds (column : Nat) : Place → Int → Prop
  | .column => DigitAt text column
  | .tail => ByteText (text.drop column)
  | .token index => ByteTokenAt text index
  | .optionalToken index => OptionalByteTokenAt text index

end

/-- The rank of a place in the order in which operands are looked at: the one that the
mnemonic is followed by comes first, and then the tokens by their numbers. -/
def Place.rank : Place → Nat
  | .column | .tail => 0
  | .token index | .optionalToken index => index

section

variable {text : List Char} {column : Nat} {name : String}

theorem readToken_eq_ok_iff {index : Nat} {value : Int} :
    readToken text name index = .ok value ↔ ByteTokenAt text index value := by
  unfold readToken ByteTokenAt
  cases (tokens text)[index]? with
  | none => simp only [reduceCtorEq, false_and, exists_false]
  | some piece => simp only [readByte_eq_ok_iff, Option.some.injEq, exists_eq_left']

theorem readPlace_eq_ok_iff {place : Place} {value : Int} :
    readPlace text column name place = .ok value ↔ place.Holds text column value := by
  cases place with
  | column =>
    simp only [readPlace, Place.Holds, DigitAt]
    cases text[column]? with
    | none => simp only [reduceCtorEq, false_and, exists_false]
    | some c =>
      simp only [readByte_eq_ok_iff, byteText_singleton_iff, Option.some.injEq,
        exists_and_left, exists_eq_left']
  | tail => exact readByte_eq_ok_iff
  | token index => exact readToken_eq_ok_iff
  | optionalToken index =>
    rw [readPlace_optionalToken, Place.Holds, OptionalByteTokenAt]
    by_cases absent : (tokens text)[index]? = none
    · rw [if_pos absent]
      simp only [absent, true_and, ByteTokenAt, reduceCtorEq, false_and, exists_false, or_false,
        Except.ok.injEq]
      exact eq_comm
    · rw [if_neg absent, readToken_eq_ok_iff]
      simp only [absent, false_and, false_or]

theorem Place.Holds.range {place : Place} {value : Int} (holds : place.Holds text column value) :
    (-128 ≤ value ∧ value ≤ 127) ∧ (place = .column → 0 ≤ value ∧ value ≤ 9) := by
  cases place with
  | column =>
    obtain ⟨c, digit, _, isDigit, rfl⟩ := holds
    have below := digitValue?_lt_ten isDigit
    exact ⟨by omega, fun _ => by omega⟩
  | tail => exact ⟨holds.2.2.2, fun impossible => nomatch impossible⟩
  | token index =>
    obtain ⟨piece, _, byte⟩ := holds
    exact ⟨byte.2.2.2, fun impossible => nomatch impossible⟩
  | optionalToken index =>
    rcases holds with ⟨_, rfl⟩ | ⟨piece, _, byte⟩
    · exact ⟨by omega, fun impossible => nomatch impossible⟩
    · exact ⟨byte.2.2.2, fun impossible => nomatch impossible⟩

end

theorem Format.spelled_iff {format : Format} {text key : List Char} {operands : Operands} :
    Spelled text key operands format ↔
      ∀ p ∈ format.grammar, p.2.Holds text (format.column key) (operands p.1) := by
  cases format <;> simp [Spelled, Format.grammar, Format.column, Place.Holds]

theorem Format.grammar_ranked (format : Format) :
    format.grammar.Pairwise fun p q => p.2.rank < q.2.rank := by
  cases format <;> decide

/-- In a list that is ordered by rank, the items before one are those of a lower rank. -/
theorem exists_split_iff {α : Type} {rank : α → Nat} {items : List α} {P Q : α → Prop}
    (ranked : items.Pairwise fun p q => rank p < rank q) :
    (∃ before p after, items = before ++ p :: after ∧ (∀ q ∈ before, P q) ∧ Q p) ↔
      ∃ p ∈ items, Q p ∧ ∀ q ∈ items, rank q < rank p → P q := by
  constructor
  · rintro ⟨before, p, after, rfl, through, stop⟩
    obtain ⟨_, later, _⟩ := List.pairwise_append.mp ranked
    refine ⟨p, List.mem_append_right _ (List.mem_cons_self ..), stop, fun q member lower => ?_⟩
    rcases List.mem_append.mp member with inBefore | inRest
    · exact through q inBefore
    · rcases List.mem_cons.mp inRest with rfl | inAfter
      · omega
      · have higher := (List.pairwise_cons.mp later).1 q inAfter
        omega
  · rintro ⟨p, member, stop, through⟩
    obtain ⟨before, after, rfl⟩ := List.append_of_mem member
    obtain ⟨_, _, across⟩ := List.pairwise_append.mp ranked
    refine ⟨before, p, after, rfl, fun q inBefore => ?_, stop⟩
    exact through q (List.mem_append_left _ inBefore) (across q inBefore p (List.mem_cons_self ..))

section

variable {text : List Char} {format : Format} {key : List Char}

theorem readOperands_eq_ok_iff_spelled {operands : Operands} :
    readOperands text format key = .ok operands ↔
      Spelled text key operands format ∧
        ∀ field ∉ format.grammar.map Prod.fst, operands field = 0 := by
  simp only [readOperands_eq_ok_iff, readPlace_eq_ok_iff, Format.spelled_iff]

/-- Of several operands that are not read, the one of the lowest rank decides. -/
theorem readOperands_eq_error_iff_first {e : LineFault} :
    readOperands text format key = .error e ↔
      ∃ p ∈ format.grammar,
        readPlace text (format.column key) p.1.label p.2 = .error e ∧
        ∀ q ∈ format.grammar, q.2.rank < p.2.rank →
          ∃ value, q.2.Holds text (format.column key) value := by
  rw [readOperands_eq_error_iff, exists_split_iff format.grammar_ranked]
  simp only [readPlace_eq_ok_iff]

/-- Operands that are spelled as the format asks for can be read, whatever stands for
the fields that the format does not have. -/
theorem exists_readOperands_iff :
    (∃ operands, readOperands text format key = .ok operands) ↔
      ∃ operands, Spelled text key operands format := by
  constructor
  · rintro ⟨operands, given⟩
    exact ⟨operands, (readOperands_eq_ok_iff_spelled.mp given).1⟩
  · rintro ⟨operands, spelled⟩
    -- What is spelled leaves the other fields open; reading makes them zero.
    refine ⟨fun field => if field ∈ format.grammar.map Prod.fst then operands field else 0, ?_⟩
    refine readOperands_eq_ok_iff_spelled.mpr ⟨?_, fun field outside => if_neg outside⟩
    rw [Format.spelled_iff] at spelled ⊢
    intro p member
    rw [if_pos (List.mem_map_of_mem member)]
    exact spelled p member

end

/-- A fault without its column. -/
def LineFault.unplaced : LineFault → LineFault
  | .reported (.operand name fault _) => .reported (.operand name fault none)
  | fault => fault

theorem readByte_unplaced (text : List Char) (name : String) (column other : Option Int) :
    (readByte text name column).mapError LineFault.unplaced =
      (readByte text name other).mapError LineFault.unplaced := by
  rw [readByte_eq, readByte_eq]
  split_ifs <;> rfl

theorem readToken_congr {text other : List Char} {name : String} {index : Nat}
    (same : (tokens text)[index]? = (tokens other)[index]?) :
    (readToken text name index).mapError LineFault.unplaced =
      (readToken other name index).mapError LineFault.unplaced := by
  rw [readToken, readToken, same]
  cases (tokens other)[index]? with
  | none => rfl
  | some piece => exact readByte_unplaced _ _ _ _

theorem readPlace_congr {text other : List Char} {column : Nat} {name : String} {place : Place}
    (same : operandText? text column place = operandText? other column place) :
    (readPlace text column name place).mapError LineFault.unplaced =
      (readPlace other column name place).mapError LineFault.unplaced := by
  cases place with
  | column =>
    have character : text[column]? = other[column]? :=
      Option.map_injective List.singleton_injective same
    rw [readPlace, readPlace, character]
  | tail =>
    have rest : text.drop column = other.drop column := Option.some.inj same
    rw [readPlace, readPlace, rest]
  | token index => exact readToken_congr same
  | optionalToken index =>
    have piece : (tokens text)[index]? = (tokens other)[index]? := same
    rw [readPlace_optionalToken, readPlace_optionalToken, piece]
    split
    · rfl
    · exact readToken_congr piece

theorem readOperands_congr {text other : List Char} {format : Format} {key : List Char}
    (same : ∀ p ∈ format.grammar, operandText? text (format.column key) p.2 =
      operandText? other (format.column key) p.2) :
    (readOperands text format key).mapError LineFault.unplaced =
      (readOperands other format key).mapError LineFault.unplaced := by
  rw [readOperands, readOperands, mapError_foldlM, mapError_foldlM, List.foldlM_eq_foldl,
    List.foldlM_eq_foldl]
  refine List.foldl_ext _ _ _ fun outcome p member => ?_
  refine bind_congr fun operands => ?_
  rw [mapError_map, mapError_map, readPlace_congr (same p member)]

/-- The grammar of operands, exactly. A line gives operands if and only if it has a digit at
the operand column, or a byte behind it where the format takes the whole rest, and bytes for
the tokens that the format asks for; they have these values, and all other fields are zero.
Otherwise the first operand at fault is reported, in the order of the tokens and the one at the
column first, unless it has more digits than are read. Nothing else in the line makes a
difference, except to the column that is reported. -/
theorem operands_spelled_exactly (text : List Char) (format : Format) (key : List Char) :
    (∀ operands, readOperands text format key = .ok operands ↔
      Spelled text key operands format ∧
        ∀ field ∉ format.grammar.map Prod.fst, operands field = 0) ∧
    ((∃ operands, readOperands text format key = .ok operands) ↔
      ∃ operands, Spelled text key operands format) ∧
    (∀ operands, readOperands text format key = .ok operands →
      ∀ p ∈ format.grammar, (-128 ≤ operands p.1 ∧ operands p.1 ≤ 127) ∧
        (p.2 = .column → 0 ≤ operands p.1 ∧ operands p.1 ≤ 9)) ∧
    (∀ e, readOperands text format key = .error (.reported e) ↔
      ∃ p ∈ format.grammar,
        (∃ fault, p.2.AtFault text (format.column key) fault ∧
          e = .operand p.1.label fault (operandColumn? text (format.column key) p.2)) ∧
        ∀ q ∈ format.grammar, q.2.rank < p.2.rank →
          ∃ value, q.2.Holds text (format.column key) value) ∧
    (∀ count, readOperands text format key = .error (.tooManyDigits count) ↔
      ∃ p ∈ format.grammar,
        (∃ piece, operandText? text (format.column key) p.2 = some piece ∧ Overlong piece count) ∧
        ∀ q ∈ format.grammar, q.2.rank < p.2.rank →
          ∃ value, q.2.Holds text (format.column key) value) ∧
    ∀ other, (∀ p ∈ format.grammar, operandText? text (format.column key) p.2 =
        operandText? other (format.column key) p.2) →
      (readOperands text format key).mapError LineFault.unplaced =
        (readOperands other format key).mapError LineFault.unplaced := by
  refine ⟨fun operands => readOperands_eq_ok_iff_spelled, exists_readOperands_iff, ?_, ?_, ?_,
    fun other same => readOperands_congr same⟩
  · intro operands given p member
    have holds := Format.spelled_iff.mp (readOperands_eq_ok_iff_spelled.mp given).1
    exact (holds p member).range
  · intro e
    simp only [readOperands_eq_error_iff_first, readPlace_eq_reported_iff]
  · intro count
    simp only [readOperands_eq_error_iff_first, readPlace_eq_tooManyDigits_iff]

/-- The operands of a load with a digit of another script, blanks around its tokens, and
text that no operand is read from. -/
theorem operands_spelled_exactly_ignoredText :
    ∃ operands,
      readOperands "LDR ٣ab, +07 ,-8,1,junk".toList .one "LDR".toList = .ok operands ∧
      operands .register = 3 ∧ operands .indexRegister = 7 ∧ operands .address = -8 ∧
      operands .indirection = 1 ∧ (-128 ≤ operands .address ∧ operands .address ≤ 127) ∧
      (readOperands "LDR ٣ab, +07 ,-8,1,junk".toList .one "LDR".toList).mapError
          LineFault.unplaced =
        (readOperands "?   ٣, +07 ,-8,1".toList .one "LDR".toList).mapError LineFault.unplaced := by
  let load : Operands
    | .register => 3
    | .indexRegister => 7
    | .address => -8
    | .indirection => 1
    | _ => 0
  have grammar := operands_spelled_exactly "LDR ٣ab, +07 ,-8,1,junk".toList .one "LDR".toList
  have byte {text : List Char} {value : Int} (read : readByte text "" none = .ok value) :
      ByteText text value :=
    readByte_eq_ok_iff.mp read
  have spelled : Spelled "LDR ٣ab, +07 ,-8,1,junk".toList "LDR".toList load .one :=
    ⟨⟨'٣', 3, by decide⟩, ⟨" +07 ".toList, rfl, byte rfl⟩, ⟨"-8".toList, rfl, byte rfl⟩,
      Or.inr ⟨"1".toList, rfl, byte rfl⟩⟩
  have zero : ∀ field ∉ Format.one.grammar.map Prod.fst, load field = 0 := by
    intro field outside
    cases field with
    | register | indexRegister | address | indirection => exact absurd (by decide) outside
    | _ => rfl
  have given := (grammar.1 load).mpr ⟨spelled, zero⟩
  refine ⟨load, given, rfl, rfl, rfl, rfl, ?_, ?_⟩
  · exact (grammar.2.2.1 load given (.address, .token 2) (by decide)).1
  · exact grammar.2.2.2.2.2 _ (by decide)

end WordAssembler
