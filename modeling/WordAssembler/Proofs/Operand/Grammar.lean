import Mathlib.Data.List.Nodup
import WordAssembler.Proofs.Except
import WordAssembler.Proofs.Operand.Byte

namespace WordAssembler

/-- What stands at a place of a text, if the text reaches so far. -/
def operandText? (text : List Char) (column : Nat) : Place → Option (List Char)
  | .column => text[column]?.map fun c => [c]
  | .tail => some (text.drop column)
  | .token index | .optionalToken index => (tokens text)[index]?

/-- The column of an error about a place: that of the operand, unless a whole token
is absent. -/
def operandColumn? (text : List Char) (column : Nat) : Place → Option Int
  | .column | .tail => some column
  | .token index | .optionalToken index =>
    (tokens text)[index]?.map fun _ => ((tokenColumn (tokens text) index : Nat) : Int)

/-- What is wrong at a place. An operand that may be absent is not at fault for it. -/
def Place.AtFault (text : List Char) (column : Nat) (place : Place) (fault : OperandFault) :
    Prop :=
  match place with
  | .column =>
    text[column]? = none ∧ fault = .absentAtColumn column ∨
      ∃ c, text[column]? = some c ∧ digitValue? c = none ∧ fault = .notANumber [c]
  | .tail => ByteFault (text.drop column) fault
  | .token index =>
    (tokens text)[index]? = none ∧ fault = .absentToken index ∨
      ∃ piece, (tokens text)[index]? = some piece ∧ ByteFault piece fault
  | .optionalToken index => ∃ piece, (tokens text)[index]? = some piece ∧ ByteFault piece fault

theorem readToken_eq_tooManyDigits_iff {text : List Char} {name : String} {index count : Nat} :
    readToken text name index = .error (.tooManyDigits count) ↔
      ∃ piece, (tokens text)[index]? = some piece ∧ Overlong piece count := by
  unfold readToken
  cases (tokens text)[index]? with
  | none => simp
  | some piece => simp [readByte_eq_tooManyDigits_iff]

/-- A token that may be absent counts as zero then, and is read like any other otherwise. -/
theorem readPlace_optionalToken {text : List Char} {column : Nat} {name : String} {index : Nat} :
    readPlace text column name (.optionalToken index) =
      if (tokens text)[index]? = none then .ok 0 else readToken text name index := by
  rw [readPlace]
  by_cases present : index < (tokens text).length
  · have found : ¬ (tokens text)[index]? = none := by
      rwa [List.getElem?_eq_none_iff, Nat.not_le]
    rw [if_pos present, if_neg found]
  · have absent : (tokens text)[index]? = none :=
      List.getElem?_eq_none_iff.mpr (Nat.not_lt.mp present)
    rw [if_neg present, if_pos absent]

/-- Reading a place is cut short by the text that stands there and by nothing
else: an absent operand is reported or counts as zero. -/
theorem readPlace_eq_tooManyDigits_iff {text : List Char} {column count : Nat} {name : String}
    {place : Place} :
    readPlace text column name place = .error (.tooManyDigits count) ↔
      ∃ piece, operandText? text column place = some piece ∧ Overlong piece count := by
  cases place with
  | column =>
    simp only [readPlace, operandText?]
    cases text[column]? with
    | none => simp
    | some c => simp [readByte_eq_tooManyDigits_iff]
  | tail => simp [readPlace, operandText?, readByte_eq_tooManyDigits_iff]
  | token index => exact readToken_eq_tooManyDigits_iff
  | optionalToken index =>
    rw [readPlace_optionalToken, operandText?]
    split
    · rename_i absent
      simp [absent]
    · exact readToken_eq_tooManyDigits_iff

theorem readToken_eq_reported_iff {text : List Char} {name : String} {index : Nat}
    {e : LineError} (column : Nat) :
    readToken text name index = .error (.reported e) ↔
      ∃ fault, (Place.token index).AtFault text column fault ∧
        e = .operand name fault (operandColumn? text column (.token index)) := by
  simp only [readToken, Place.AtFault, operandColumn?]
  cases (tokens text)[index]? with
  | none =>
    simp only [Except.error.injEq, LineFault.reported.injEq, true_and, reduceCtorEq, false_and,
      exists_false, or_false, exists_eq_left, Option.map_none]
    exact eq_comm
  | some piece =>
    simp only [readByte_eq_reported_iff, reduceCtorEq, false_and, Option.some.injEq,
      exists_eq_left', false_or, Option.map_some]

theorem readPlace_eq_reported_iff {text : List Char} {column : Nat} {name : String}
    {place : Place} {e : LineError} :
    readPlace text column name place = .error (.reported e) ↔
      ∃ fault, place.AtFault text column fault ∧
        e = .operand name fault (operandColumn? text column place) := by
  cases place with
  | column =>
    simp only [readPlace, Place.AtFault, operandColumn?]
    cases text[column]? with
    | none =>
      simp only [Except.error.injEq, LineFault.reported.injEq, true_and, reduceCtorEq, false_and,
        exists_false, or_false, exists_eq_left]
      exact eq_comm
    | some c =>
      simp only [readByte_eq_reported_iff, byteFault_singleton_iff, reduceCtorEq, false_and,
        Option.some.injEq, exists_eq_left', false_or]
  | tail => exact readByte_eq_reported_iff
  | token index => exact readToken_eq_reported_iff column
  | optionalToken index =>
    rw [readPlace_optionalToken]
    by_cases absent : (tokens text)[index]? = none
    · rw [if_pos absent]
      simp only [Place.AtFault, absent, reduceCtorEq, false_and, exists_false]
    · rw [if_neg absent, readToken_eq_reported_iff column]
      simp only [Place.AtFault, absent, false_and, false_or, operandColumn?]

/-- Whatever is reported about a place is about the operand that stands there, and
points at it. -/
theorem readPlace_reported {line : List Char} {column : Nat} {name : String} {place : Place}
    {e : LineError} (failed : readPlace line column name place = .error (.reported e)) :
    ∃ fault, e = .operand name fault (operandColumn? line column place) := by
  obtain ⟨fault, _, same⟩ := readPlace_eq_reported_iff.mp failed
  exact ⟨fault, same⟩

/-- Reading operands one after another is reading all of them, of which the
first to fail decides. -/
theorem foldlM_put_eq_error_iff {ε : Type} {read : Field × Place → Except ε Int}
    {items : List (Field × Place)} {before : Operands} {e : ε} :
    items.foldlM (fun operands p => operands.put p.1 <$> read p) before = .error e ↔
      items.mapM read = .error e := by
  induction items generalizing before with
  | nil => simp [pure, Except.pure]
  | cons p rest ih =>
    rw [List.foldlM_cons, List.mapM_cons, bind_eq_error_iff, bind_eq_error_iff,
      map_eq_error_iff]
    refine or_congr_right ?_
    constructor
    · rintro ⟨operands, given, later⟩
      obtain ⟨value, atPlace, _⟩ := map_eq_ok_iff.mp given
      exact ⟨value, atPlace, bind_eq_error_iff.mpr (Or.inl (ih.mp later))⟩
    · rintro ⟨value, atPlace, later⟩
      rcases bind_eq_error_iff.mp later with stops | ⟨_, _, impossible⟩
      · exact ⟨_, map_eq_ok_iff.mpr ⟨value, atPlace, rfl⟩, ih.mpr stops⟩
      · cases impossible

theorem foldlM_put_eq_ok_iff {ε : Type} {read : Field × Place → Except ε Int}
    {items : List (Field × Place)} (distinct : (items.map Prod.fst).Nodup)
    {before operands : Operands} :
    items.foldlM (fun operands p => operands.put p.1 <$> read p) before = .ok operands ↔
      (∀ p ∈ items, read p = .ok (operands p.1)) ∧
        ∀ field ∉ items.map Prod.fst, operands field = before field := by
  induction items generalizing before with
  | nil =>
    simp only [List.foldlM_nil, pure, Except.pure, Except.ok.injEq, List.map_nil, List.not_mem_nil,
      not_false_eq_true, forall_const, IsEmpty.forall_iff, implies_true, true_and]
    exact ⟨fun same field => congrFun same.symm field, fun same => (funext same).symm⟩
  | cons p rest ih =>
    rw [List.map_cons, List.nodup_cons] at distinct
    obtain ⟨new, distinctRest⟩ := distinct
    rw [List.forall_mem_cons]
    simp only [List.foldlM_cons, bind_eq_ok_iff, ih distinctRest, List.map_cons, List.mem_cons,
      not_or]
    constructor
    · rintro ⟨next, given, others, outside⟩
      obtain ⟨value, atPlace, rfl⟩ := map_eq_ok_iff.mp given
      have here : operands p.1 = value := by
        rw [outside p.1 new, Operands.put, if_pos rfl]
      refine ⟨⟨here.symm ▸ atPlace, others⟩, fun field absent => ?_⟩
      rw [outside field absent.2, Operands.put, if_neg absent.1]
    · rintro ⟨⟨atPlace, others⟩, outside⟩
      refine ⟨_, map_eq_ok_iff.mpr ⟨_, atPlace, rfl⟩, others, fun field absent => ?_⟩
      rw [Operands.put]
      split
      · rename_i same
        rw [same]
      · rename_i other
        exact outside field ⟨other, absent⟩

theorem Format.grammar_fields_nodup (format : Format) :
    (format.grammar.map Prod.fst).Nodup := by
  cases format <;> decide

/-- Operands are read exactly if each place of the format is, and they hold
what was read there and nothing else. -/
theorem readOperands_eq_ok_iff {line : List Char} {format : Format} {key : List Char}
    {operands : Operands} :
    readOperands line format key = .ok operands ↔
      (∀ p ∈ format.grammar,
        readPlace line (format.column key) p.1.label p.2 = .ok (operands p.1)) ∧
      ∀ field ∉ format.grammar.map Prod.fst, operands field = 0 :=
  foldlM_put_eq_ok_iff format.grammar_fields_nodup

theorem readOperands_eq_error_iff {line : List Char} {format : Format} {key : List Char}
    {e : LineFault} :
    readOperands line format key = .error e ↔
      ∃ before p after, format.grammar = before ++ p :: after ∧
        (∀ q ∈ before, ∃ value,
          readPlace line (format.column key) q.1.label q.2 = .ok value) ∧
        readPlace line (format.column key) p.1.label p.2 = .error e :=
  foldlM_put_eq_error_iff.trans mapM_eq_error_iff

end WordAssembler
