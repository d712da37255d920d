import Mathlib.Algebra.Group.Nat.Defs
import Mathlib.Data.List.TakeWhile
import WordAssembler.Proofs.Assembly.Lines
import WordAssembler.Proofs.Operand.Grammar
import WordAssembler.Proofs.Registry.Entries
import WordAssembler.Proofs.Text.Line
import WordAssembler.Proofs.Text.Separated

namespace WordAssembler

/-- An instruction that is to be written: its mnemonic and what is registered
for it, the operand of each field, and whether an indirection of zero is left
out. -/
structure Statement where
  key : List Char
  format : Format
  opcode : Int
  operands : Field → Nat
  omitsZero : Bool

namespace Statement

/-- The entry that gives the mnemonic of a statement its meaning. -/
def entry (s : Statement) : Entry :=
  ⟨s.key, s.format, s.opcode⟩

/-- The fields that are written, in the order in which they are read. -/
def fields (s : Statement) : List Field :=
  (s.format.grammar.map Prod.fst).filter fun field =>
    !(s.omitsZero && field == .indirection && s.operands field == 0)

/-- The written operands in decimal digits. -/
def pieces (s : Statement) : List (List Char) :=
  s.fields.map fun field => Nat.toDigits 10 (s.operands field)

/-- The mnemonic with spaces up to the column of the first operand. -/
def head (s : Statement) : List Char :=
  s.key ++ List.replicate (s.format.column s.key - s.key.length) ' '

/-- The line of a statement. -/
def text (s : Statement) : List Char :=
  s.head ++ List.intercalate [','] s.pieces

/-- What a field of the word has to hold: nothing if the format does not read
such an operand. -/
def value (s : Statement) (field : Field) : Nat :=
  if field ∈ s.format.grammar.map Prod.fst then s.operands field else 0

end Statement

/-- The source of a program, one statement to a line. -/
def sourceText (program : List Statement) : List Char :=
  List.intercalate ['\n'] (program.map Statement.text)

/-- A mnemonic that a line can be looked up by and still go on behind it. -/
def Selectable (key : Text) : Prop :=
  key = Text.ofChars ['I', 'N'] ∨ key.length = 3 ∧ ¬ Text.ofChars ['I', 'N'] <+: key

instance (key : Text) : Decidable (Selectable key) :=
  inferInstanceAs (Decidable (_ ∨ _))

theorem selectable_ofChars_iff {key : List Char} :
    Selectable key ↔ key = ['I', 'N'] ∨ key.length = 3 ∧ ¬ ['I', 'N'] <+: key := by
  have distinct : Function.Injective CodePoint.char := fun _ _ => CodePoint.char.inj
  have starts : Text.ofChars ['I', 'N'] <+: Text.ofChars key ↔ ['I', 'N'] <+: key :=
    List.prefix_map_iff_of_injective distinct
  rw [Selectable, Text.ofChars_inj, Text.length_ofChars, starts]

/-- A mnemonic that a line can start with: it is looked up by as many characters
as it has, holds nothing that ends a token, a line or the part of it before a
comment, and is not trimmed away. -/
structure WritableKey (key : List Char) : Prop where
  whole : key = ['I', 'N'] ∨ key.length = 3 ∧ ¬ ['I', 'N'] <+: key
  inside : ∀ c ∈ key, c ≠ ',' ∧ c ≠ ';' ∧ isLineBreak c = false
  start : ∀ c ∈ key.head?, isBlank c = false

/-- A statement of a registry whose operands fit their slots. -/
structure Statement.Representable (s : Statement) (r : Registry) : Prop where
  registered : s.entry ∈ r.entries
  key : WritableKey s.key
  range : ∀ field ∈ s.format.grammar.map Prod.fst, s.operands field < 2 ^ field.slot.width

/-- A statement whose line alone gives its word, whether or not the line may stand in
a source. -/
structure Statement.Encodable (s : Statement) (r : Registry) : Prop where
  registered : s.entry ∈ r.entries
  selectable : Selectable s.key
  noComma : ',' ∉ s.key
  range : ∀ field ∈ s.format.grammar.map Prod.fst, s.operands field < 2 ^ field.slot.width

theorem WritableKey.noComma {key : List Char} (writable : WritableKey key) : ',' ∉ key :=
  fun member => (writable.inside ',' member).1 rfl

theorem Statement.Representable.encodable {s : Statement} {r : Registry}
    (representable : s.Representable r) : s.Encodable r :=
  ⟨representable.registered, selectable_ofChars_iff.mpr representable.key.whole,
    representable.key.noComma, representable.range⟩

instance (key : List Char) : Decidable (WritableKey key) :=
  decidable_of_iff
    ((key = ['I', 'N'] ∨ key.length = 3 ∧ ¬ ['I', 'N'] <+: key) ∧
      key.all (fun c => c ≠ ',' ∧ c ≠ ';' ∧ isLineBreak c = false) ∧
      key.head?.all fun c => isBlank c = false) <| by
    simp only [List.all_eq_true, Option.all_eq_true, decide_eq_true_eq]
    exact ⟨fun parts => ⟨parts.1, parts.2.1, parts.2.2⟩, fun w => ⟨w.whole, w.inside, w.start⟩⟩

instance (s : Statement) (r : Registry) : Decidable (s.Representable r) :=
  decidable_of_iff
    (s.entry ∈ r.entries ∧ WritableKey s.key ∧
      ∀ field ∈ s.format.grammar.map Prod.fst, s.operands field < 2 ^ field.slot.width)
    ⟨fun parts => ⟨parts.1, parts.2.1, parts.2.2⟩, fun w => ⟨w.registered, w.key, w.range⟩⟩

theorem Selectable.length {key : List Char} (selectable : Selectable key) :
    2 ≤ key.length ∧ key.length ≤ 3 := by
  rcases selectable_ofChars_iff.mp selectable with rfl | ⟨length, _⟩
  · decide
  · omega

/-- The characters after a mnemonic do not change what is looked up. -/
theorem Selectable.mnemonicKey_append {key : List Char} (selectable : Selectable key)
    (rest : List Char) : mnemonicKey (key ++ rest) = key := by
  rcases selectable_ofChars_iff.mp selectable with rfl | ⟨length, other⟩
  · rfl
  · have same : ['I', 'N'].isPrefixOf (key ++ rest) = false := by
      rw [Bool.eq_false_iff, ne_eq, List.isPrefixOf_iff_prefix]
      intro starts
      exact other (List.prefix_of_prefix_length_le starts (List.prefix_append key rest)
        (by rw [length]; decide))
    rw [mnemonicKey, same, if_neg Bool.false_ne_true, ← length, List.take_left]

namespace Statement

variable {s : Statement} {r : Registry}

theorem digits_of_mem_pieces {piece : List Char} (member : piece ∈ s.pieces) :
    piece ≠ [] ∧ ∀ c ∈ piece, c.isDigit := by
  obtain ⟨field, _, rfl⟩ := List.mem_map.mp member
  exact ⟨Nat.toDigits_ne_nil, fun c inPiece => isDigit_of_mem_toDigits inPiece⟩

theorem length_head (selectable : Selectable s.key) :
    s.head.length = s.format.column s.key := by
  have length := selectable.length
  rw [head, List.length_append, List.length_replicate, Format.column]
  split <;> omega

theorem mem_head {c : Char} (member : c ∈ s.head) : c ∈ s.key ∨ c = ' ' := by
  rw [head, List.mem_append] at member
  exact member.imp_right List.eq_of_mem_replicate

theorem mem_operandText {c : Char} (member : c ∈ List.intercalate [','] s.pieces) :
    c = ',' ∨ c.isDigit := by
  rcases mem_of_mem_intercalate member with comma | ⟨piece, inPieces, inPiece⟩
  · exact Or.inl comma
  · exact Or.inr ((digits_of_mem_pieces inPieces).2 c inPiece)

/-- Every format has a first operand that is always written, and the one that
may be left out is the last. -/
theorem fields_cases (s : Statement) :
    s.fields = s.format.grammar.map Prod.fst ∨
    ∃ before, before ≠ [] ∧ s.fields = before.map Prod.fst ∧ s.operands .indirection = 0 ∧
      s.format.grammar = before ++ [(.indirection, .optionalToken before.length)] := by
  by_cases omitted : s.omitsZero = true ∧ s.operands .indirection = 0
  · obtain ⟨omits, zero⟩ := omitted
    have kept : s.fields =
        (s.format.grammar.map Prod.fst).filter fun field => field != .indirection := by
      refine List.filter_congr fun field _ => ?_
      by_cases same : field = .indirection
      · simp [same, omits, zero]
      · have other : (field == .indirection) = false := beq_eq_false_iff_ne.mpr same
        simp only [other, bne, Bool.and_false, Bool.false_and, Bool.not_false]
    rw [kept]
    cases s.format with
    | one =>
      exact Or.inr ⟨[(.register, .column), (.indexRegister, .token 1), (.address, .token 2)],
        by simp, rfl, zero, rfl⟩
    | two =>
      exact Or.inr ⟨[(.indexRegister, .column), (.address, .token 1)], by simp, rfl, zero, rfl⟩
    | _ => exact Or.inl rfl
  · refine Or.inl (List.filter_eq_self.mpr fun field _ => ?_)
    rw [Bool.not_eq_true', Bool.and_eq_false_iff, Bool.and_eq_false_iff]
    by_cases same : field = .indirection
    · rcases Bool.eq_false_or_eq_true s.omitsZero with omits | keeps
      · exact Or.inr (beq_eq_false_iff_ne.mpr fun zero => omitted ⟨omits, same ▸ zero⟩)
      · exact Or.inl (Or.inl keeps)
    · exact Or.inl (Or.inr (beq_eq_false_iff_ne.mpr same))

theorem pieces_ne_nil (s : Statement) : s.pieces ≠ [] := by
  rw [pieces, ne_eq, List.map_eq_nil_iff]
  rcases s.fields_cases with all | ⟨before, someField, kept, _⟩
  · rw [all]
    cases s.format <;> simp [Format.grammar]
  · rwa [kept, List.map_eq_nil_iff]

theorem mnemonicKey_text (selectable : Selectable s.key) :
    mnemonicKey s.text = s.key := by
  rw [text, head, List.append_assoc]
  exact selectable.mnemonicKey_append _

theorem tokens_text (noComma : ',' ∉ s.key) {first : List Char}
    {others : List (List Char)} (split : s.pieces = first :: others) :
    tokens s.text = (s.head ++ first) :: others := by
  have whole : ',' ∉ s.head := by
    intro member
    rcases mem_head member with inKey | space
    · exact noComma inKey
    · cases space
  rw [tokens, text, split]
  refine separated_append_intercalate whole fun piece member comma => ?_
  rw [← split] at member
  have digit := (digits_of_mem_pieces member).2 ',' comma
  contradiction

theorem length_tokens_text (noComma : ',' ∉ s.key) :
    (tokens s.text).length = s.pieces.length := by
  obtain ⟨first, others, split⟩ := List.exists_cons_of_ne_nil s.pieces_ne_nil
  rw [tokens_text noComma split, split, List.length_cons, List.length_cons]

/-- But for the first one, which starts with the mnemonic, the tokens of a line
are the operands that were written. -/
theorem getElem?_tokens_text (noComma : ',' ∉ s.key) {i : Nat} (later : 0 < i) :
    (tokens s.text)[i]? = s.pieces[i]? := by
  obtain ⟨first, others, split⟩ := List.exists_cons_of_ne_nil s.pieces_ne_nil
  obtain ⟨j, rfl⟩ := Nat.exists_eq_succ_of_ne_zero (Nat.ne_of_gt later)
  rw [tokens_text noComma split, split, List.getElem?_cons_succ, List.getElem?_cons_succ]

theorem drop_text (selectable : Selectable s.key) :
    s.text.drop (s.format.column s.key) = List.intercalate [','] s.pieces := by
  rw [← length_head selectable, text, List.drop_left]

theorem mem_text {c : Char} (member : c ∈ s.text) :
    c ∈ s.key ∨ c = ' ' ∨ c = ',' ∨ c.isDigit := by
  rw [text, List.mem_append] at member
  rcases member with inHead | inOperands
  · exact (mem_head inHead).imp_right Or.inl
  · exact Or.inr (Or.inr (mem_operandText inOperands))

theorem operandText_ne_nil (s : Statement) : List.intercalate [','] s.pieces ≠ [] := by
  obtain ⟨first, others, split⟩ := List.exists_cons_of_ne_nil s.pieces_ne_nil
  have solid := (digits_of_mem_pieces (split ▸ List.mem_cons_self ..)).1
  rw [split]
  cases others with
  | nil => rwa [List.intercalate_singleton]
  | cons second rest =>
    rw [List.intercalate_cons_cons]
    simp [solid]

/-- No character of a statement starts a comment or ends the line. -/
theorem inside_text (writable : WritableKey s.key) {c : Char} (member : c ∈ s.text) :
    c ≠ ';' ∧ isLineBreak c = false := by
  rcases mem_text member with inKey | rfl | rfl | digit
  · exact (writable.inside c inKey).2
  · decide
  · decide
  · refine ⟨?_, isLineBreak_of_isDigit digit⟩
    rintro rfl
    contradiction

/-- The line of a statement is all instruction: it has no comment, and neither
its mnemonic nor its last digit is a blank. -/
theorem instructionText_text (writable : WritableKey s.key) :
    withoutComment s.text = s.text ∧ instructionText s.text = s.text := by
  have noComment : s.text.takeWhile (· ≠ ';') = s.text := by
    rw [List.takeWhile_eq_self_iff]
    exact fun c member => decide_eq_true (inside_text writable member).1
  have noEnd : trimEnd s.text = s.text := by
    refine trimEnd_of_last fun c last => ?_
    rw [text, List.getLast?_append_of_ne_nil _ s.operandText_ne_nil] at last
    rcases mem_operandText (List.mem_of_getLast? last) with rfl | digit
    · rfl
    · exact isBlank_of_isDigit digit
  have noStart : trimStart s.text = s.text := by
    refine trimStart_of_head fun c first => writable.start c ?_
    have someKey : s.key ≠ [] := by
      intro empty
      have length := Selectable.length (selectable_ofChars_iff.mpr writable.whole)
      rw [empty] at length
      exact absurd length.1 (by decide)
    rwa [text, head, List.append_assoc, List.head?_append_of_ne_nil _ someKey] at first
  have kept : withoutComment s.text = s.text := by
    rw [withoutComment, noComment, noEnd]
  exact ⟨kept, by rw [instructionText, kept, noStart]⟩

end Statement

end WordAssembler
