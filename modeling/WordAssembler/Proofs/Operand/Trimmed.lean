import WordAssembler.Proofs.Operand.Grammar
import WordAssembler.Proofs.Text.Separated

namespace WordAssembler

/-- What is left of a fault without its wording: the kind under which it is
reported, or the digits by which it interrupts the work. -/
def LineFault.outline : LineFault → FaultKind ⊕ Nat
  | .reported e => .inl e.kind
  | .tooManyDigits count => .inr count

/-- Blanks around an operand change what is said about it, and nothing else. -/
theorem readByte_outline {s t : List Char} (same : trim s = trim t) (name : String)
    (column other : Option Int) :
    (readByte s name column).mapError LineFault.outline =
      (readByte t name other).mapError LineFault.outline := by
  unfold readByte
  rw [same]
  cases readInteger (trim t) with
  | ok value =>
    by_cases fits : -128 ≤ value ∧ value ≤ 127
    · simp only [if_pos fits]
    · simp only [if_neg fits]
      rfl
  | error fault => cases fault <;> rfl

theorem readByte_blank {text : List Char} (blank : ∀ c ∈ text, isBlank c) (name : String)
    (column : Option Int) :
    readByte text name column = .error (.reported (.operand name (.notANumber text) column)) := by
  have empty : trim text = [] := by
    rw [trim, trimStart, List.dropWhile_eq_nil_iff.mpr blank]
    rfl
  rw [readByte, empty]
  rfl

theorem readPlace_of_blank {text : List Char} {column : Nat} {place : Place}
    (blank : ∀ c ∈ text.drop column, isBlank c) (early : place = .column ∨ place = .tail)
    (name : String) : ∃ e, readPlace text column name place = .error (.reported e) := by
  rcases early with rfl | rfl
  · rw [readPlace]
    cases atColumn : text[column]? with
    | none => exact ⟨_, rfl⟩
    | some c =>
      have first : (text.drop column)[0]? = some c := by
        rwa [List.getElem?_drop]
      have single : ∀ d ∈ [c], isBlank d := by
        rw [List.forall_mem_singleton]
        exact blank c (List.mem_of_getElem? first)
      exact ⟨_, readByte_blank single _ _⟩
  · exact ⟨_, readByte_blank blank _ _⟩

theorem comma_not_mem_of_blank {blanks : List Char} (blank : ∀ c ∈ blanks, isBlank c) :
    ',' ∉ blanks := by
  intro member
  have isBlankComma := blank ',' member
  contradiction

theorem tokens_append_blanks {blanks : List Char} (blank : ∀ c ∈ blanks, isBlank c)
    (s : List Char) : (tokens (s ++ blanks)).map trim = (tokens s).map trim := by
  obtain ⟨before, last, split, extended⟩ :=
    exists_separated_append (comma_not_mem_of_blank blank) s
  rw [tokens, tokens, split, extended, List.map_append, List.map_append, List.map_singleton,
    List.map_singleton, trim_append_blanks blank]

theorem readToken_append_blanks {blanks : List Char} (blank : ∀ c ∈ blanks, isBlank c)
    (s : List Char) (name : String) (index : Nat) :
    (readToken (s ++ blanks) name index).mapError LineFault.outline =
      (readToken s name index).mapError LineFault.outline := by
  have same := congrArg (·[index]?) (tokens_append_blanks blank s)
  simp only [List.getElem?_map] at same
  unfold readToken
  cases long : (tokens (s ++ blanks))[index]? with
  | none =>
    rw [long, Option.map_none, eq_comm, Option.map_eq_none_iff] at same
    rw [same]
  | some piece =>
    rw [long, Option.map_some, eq_comm, Option.map_eq_some_iff] at same
    obtain ⟨other, short, trimmed⟩ := same
    rw [short]
    exact readByte_outline trimmed.symm _ _ _

/-- Blanks behind a line are no operand: at an operand column they count as absent,
and elsewhere they belong to the last token or to the tail. -/
theorem readPlace_append_blanks {blanks : List Char} (blank : ∀ c ∈ blanks, isBlank c)
    (s : List Char) (column : Nat) (name : String) (place : Place) :
    (readPlace (s ++ blanks) column name place).mapError LineFault.outline =
      (readPlace s column name place).mapError LineFault.outline := by
  cases place with
  | column =>
    by_cases inside : column < s.length
    · rw [readPlace, readPlace, List.getElem?_append_left inside]
    · have outside := Nat.not_lt.mp inside
      rw [readPlace, readPlace, List.getElem?_append_right outside, List.getElem?_eq_none outside]
      cases atBlank : blanks[column - s.length]? with
      | none => rfl
      | some c =>
        have single : ∀ d ∈ [c], isBlank d := by
          rw [List.forall_mem_singleton]
          exact blank c (List.mem_of_getElem? atBlank)
        simp only [readByte_blank single]
        rfl
  | tail =>
    have behind : ∀ c ∈ blanks.drop (column - s.length), isBlank c := fun c member =>
      blank c (List.mem_of_mem_drop member)
    rw [readPlace, readPlace, List.drop_append]
    exact readByte_outline (trim_append_blanks behind _) _ _ _
  | token index => exact readToken_append_blanks blank s name index
  | optionalToken index =>
    have length := congrArg List.length (tokens_append_blanks blank s)
    rw [List.length_map, List.length_map] at length
    rw [readPlace, readPlace, length]
    by_cases present : index < (tokens s).length
    · rw [if_pos present, if_pos present]
      exact readToken_append_blanks blank s name index
    · rw [if_neg present, if_neg present]

theorem readOperands_append_blanks {blanks : List Char} (blank : ∀ c ∈ blanks, isBlank c)
    (s : List Char) (format : Format) (key : List Char) :
    (readOperands (s ++ blanks) format key).mapError LineFault.outline =
      (readOperands s format key).mapError LineFault.outline := by
  rw [readOperands, readOperands, mapError_foldlM, mapError_foldlM]
  refine congrArg (fun step => format.grammar.foldlM step Operands.none) ?_
  funext operands p
  simp only [mapError_map, readPlace_append_blanks blank]

end WordAssembler
