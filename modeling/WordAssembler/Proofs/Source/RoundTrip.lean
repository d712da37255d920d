import WordAssembler.Proofs.Instruction.Decoded
import WordAssembler.Proofs.Source.Statement

namespace WordAssembler

/-- Only the first operand of a format stands at its column or takes the rest of
the line, and then it has a single digit or is alone. Any other one has a token
of its own. -/
theorem Format.place_at_index (format : Format) : ∀ q ∈ format.grammar.zipIdx,
    (q.2 = 0 ∧ (q.1.2 = .column ∧ q.1.1.slot.width ≤ 2 ∨
      q.1.2 = .tail ∧ format.grammar.length = 1)) ∨
    0 < q.2 ∧ (q.1.2 = .token q.2 ∨ q.1.2 = .optionalToken q.2) := by
  cases format <;> decide

theorem Format.grammar_fields_subset_layout (format : Format) :
    ∀ field ∈ format.grammar.map Prod.fst, field ∈ format.layout.fields := by
  cases format <;> decide

theorem Field.slot_width_le (field : Field) : field.slot.width ≤ 7 := by
  cases field <;> decide

theorem Field.le_byte {field : Field} {n : Nat} (small : n < 2 ^ field.slot.width) : n ≤ 127 := by
  have bound : 2 ^ field.slot.width ≤ 2 ^ 7 :=
    Nat.pow_le_pow_right (by decide) field.slot_width_le
  omega

namespace Statement

variable {s : Statement} {r : Registry}

theorem length_pieces_le (s : Statement) : s.pieces.length ≤ s.format.grammar.length := by
  have kept := List.length_filter_le (fun field =>
    !(s.omitsZero && field == .indirection && s.operands field == 0))
    (s.format.grammar.map Prod.fst)
  rw [List.length_map] at kept
  rwa [pieces, List.length_map, fields]

theorem readPlace_column (selectable : Selectable s.key) {n : Nat} (digit : n < 10)
    (written : s.pieces[0]? = some (Nat.toDigits 10 n)) (name : String) :
    readPlace s.text (s.format.column s.key) name .column = .ok n := by
  obtain ⟨first, others, split⟩ := List.exists_cons_of_ne_nil s.pieces_ne_nil
  rw [split] at written
  obtain rfl : first = Nat.toDigits 10 n := Option.some.inj written
  have here : s.text[s.format.column s.key]? = some (Nat.digitChar n) := by
    rw [← Nat.add_zero (s.format.column s.key), ← List.getElem?_drop,
      drop_text selectable, split, Nat.toDigits_of_lt_base digit]
    cases others <;> rfl
  have byte := readByte_toDigits (by omega : n ≤ 127) name
    (some (s.format.column s.key : Nat))
  rw [Nat.toDigits_of_lt_base digit] at byte
  rw [readPlace, here]
  exact byte

theorem readPlace_tail (selectable : Selectable s.key) {n : Nat} (small : n ≤ 127)
    (written : s.pieces = [Nat.toDigits 10 n]) (name : String) :
    readPlace s.text (s.format.column s.key) name .tail = .ok n := by
  rw [readPlace, drop_text selectable, written, List.intercalate_singleton]
  exact readByte_toDigits small _ _

theorem readToken_text (noComma : ',' ∉ s.key) {i n : Nat} (later : 0 < i)
    (small : n ≤ 127) (written : s.pieces[i]? = some (Nat.toDigits 10 n)) (name : String) :
    readToken s.text name i = .ok n := by
  rw [readToken, getElem?_tokens_text noComma later, written]
  exact readByte_toDigits small _ _

/-- A written operand is read at its place. -/
theorem readPlace_text (encodable : s.Encodable r) {i n : Nat} {p : Field × Place}
    (atIndex : s.format.grammar[i]? = some p) (small : n < 2 ^ p.1.slot.width)
    (written : s.pieces[i]? = some (Nat.toDigits 10 n)) :
    readPlace s.text (s.format.column s.key) p.1.label p.2 = .ok n := by
  obtain ⟨field, place⟩ := p
  have byte := Field.le_byte small
  rcases s.format.place_at_index ((field, place), i)
    (List.mk_mem_zipIdx_iff_getElem?.mpr atIndex) with
    ⟨start, ⟨isColumn, width⟩ | ⟨isTail, single⟩⟩ | ⟨later, isToken⟩
  · obtain rfl : i = 0 := start
    obtain rfl : place = .column := isColumn
    have bound : 2 ^ field.slot.width ≤ 2 ^ 2 := Nat.pow_le_pow_right (by decide) width
    have digit : n < 2 ^ 2 := Nat.lt_of_lt_of_le small bound
    exact readPlace_column encodable.selectable (by omega) written field.label
  · obtain rfl : i = 0 := start
    obtain rfl : place = .tail := isTail
    have alone : s.pieces.length ≤ 1 := single ▸ s.length_pieces_le
    obtain ⟨first, others, split⟩ := List.exists_cons_of_ne_nil s.pieces_ne_nil
    rw [split, List.length_cons] at alone
    obtain rfl : others = [] := List.eq_nil_of_length_eq_zero (by omega)
    rw [split] at written
    exact readPlace_tail encodable.selectable byte (split.trans (congrArg (fun piece => [piece])
      (Option.some.inj written))) field.label
  · have given := readToken_text encodable.noComma later byte written field.label
    rcases isToken with required | optional
    · obtain rfl : place = .token i := required
      exact given
    · obtain rfl : place = .optionalToken i := optional
      have reaches : i < (tokens s.text).length := by
        rw [length_tokens_text encodable.noComma]
        exact (List.getElem?_eq_some_iff.mp written).1
      rw [readPlace, if_pos reaches]
      exact given

theorem value_of_mem {field : Field} (member : field ∈ s.format.grammar.map Prod.fst) :
    s.value field = s.operands field :=
  if_pos member

/-- The operands of a statement are read back from its line, and an indirection
that was left out is read as zero. -/
theorem readOperands_text (encodable : s.Encodable r) :
    readOperands s.text s.format s.key = .ok fun field => (s.value field : Int) := by
  refine readOperands_eq_ok_iff.mpr ⟨fun p member => ?_, fun field absent => ?_⟩
  · obtain ⟨i, atIndex⟩ := List.mem_iff_getElem?.mp member
    have inFields := List.mem_map_of_mem (f := Prod.fst) member
    have small := encodable.range p.1 inFields
    rw [value_of_mem inFields]
    rcases s.fields_cases with all | ⟨before, someField, kept, zero, split⟩
    · refine readPlace_text encodable atIndex small ?_
      rw [pieces, all, List.map_map, List.getElem?_map, atIndex]
      rfl
    · by_cases early : i < before.length
      · refine readPlace_text encodable atIndex small ?_
        rw [split, List.getElem?_append_left early] at atIndex
        rw [pieces, kept, List.map_map, List.getElem?_map, atIndex]
        rfl
      · have inGrammar := (List.getElem?_eq_some_iff.mp atIndex).1
        rw [split, List.length_append, List.length_singleton] at inGrammar
        obtain rfl : i = before.length := by omega
        rw [split, List.getElem?_concat_length] at atIndex
        obtain rfl : (Field.indirection, Place.optionalToken before.length) = p :=
          Option.some.inj atIndex
        have count : (tokens s.text).length = before.length := by
          rw [length_tokens_text encodable.noComma, pieces, kept, List.length_map, List.length_map]
        rw [readPlace, count, if_neg (Nat.lt_irrefl _), zero]
        rfl
  · rw [value, if_neg absent]
    rfl

/-- The instruction that a statement writes. -/
def instruction (s : Statement) : Instruction :=
  ⟨s.key, s.format, s.opcode, fun field => s.value field⟩

theorem encodeLine_text [Machine] (wellFormed : WellFormed r.entries) (encodable : s.Encodable r) :
    encodeLine r s.text = .ok s.instruction.word := by
  have key := mnemonicKey_text encodable.selectable
  have found := (Registry.find?_eq_some_iff wellFormed).mpr ⟨encodable.registered, rfl⟩
  have given : Instruction.read r s.text = .ok s.instruction := by
    refine Instruction.read_eq_ok_iff.mpr ⟨s.entry, s.instruction.operands, ?_, ?_, ?_⟩
    · rwa [key]
    · rw [key]
      exact readOperands_text encodable
    · rw [key]
      rfl
  exact map_eq_ok_iff.mpr ⟨_, given, rfl⟩

theorem value_lt (representable : s.Representable r) (field : Field) :
    s.value field < 2 ^ field.slot.width := by
  rw [value]
  split
  · rename_i member
    exact representable.range field member
  · exact Nat.two_pow_pos _

theorem field_read_word [Machine] (representable : s.Representable r) {field : Field}
    (member : field ∈ s.format.layout.fields) :
    field.slot.read s.instruction.word = s.value field := by
  have reduced := s.instruction.field_read_word member
  have small : (s.value field : Int) < 2 ^ field.slot.width := by
    exact_mod_cast value_lt representable field
  rw [show s.instruction.operands field = s.value field from rfl,
    Int.emod_eq_of_lt (Int.natCast_nonneg _) small] at reduced
  exact Int.ofNat_inj.mp reduced

end Statement

theorem splitLines_sourceText {r : Registry} {program : List Statement}
    (representable : ∀ s ∈ program, s.Representable r) :
    splitLines (sourceText program) = program.map Statement.text := by
  refine splitLines_intercalate (fun line member => ?_) (fun line member c inLine => ?_)
  · obtain ⟨s, _, rfl⟩ := List.mem_map.mp member
    exact List.append_ne_nil_of_right_ne_nil _ s.operandText_ne_nil
  · obtain ⟨s, inProgram, rfl⟩ := List.mem_map.mp member
    exact (Statement.inside_text (representable s inProgram).key inLine).2

theorem sourceLines_text {r : Registry} {program : List Statement}
    (representable : ∀ s ∈ program, s.Representable r) (first : Nat) :
    sourceLines first (program.map Statement.text) =
      (program.zipIdx first).map fun (s, number) => ⟨number, 0, s.text⟩ := by
  rw [sourceLines, List.zipIdx_map, List.filterMap_map, ← List.filterMap_eq_map]
  refine List.filterMap_congr fun p member => ?_
  have inProgram := List.fst_mem_of_mem_zipIdx member
  have someText : p.1.text ≠ [] := List.append_ne_nil_of_right_ne_nil _ p.1.operandText_ne_nil
  have whole := Statement.instructionText_text (representable p.1 inProgram).key
  refine SourceLine.ofRaw?_eq_some_iff.mpr ?_
  rw [indentWidth, whole.1, whole.2, Nat.sub_self]
  exact ⟨someText, rfl⟩

/-- The line that a statement adds to an assembly. -/
def Statement.encoded [Machine] (s : Statement) (number : Nat) : EncodedLine :=
  ⟨number, s.text, s.instruction.word⟩

/-- All lines of a program are encoded, in order and without a diagnostic. -/
theorem ofSource_sourceText [Machine] {r : Registry} (wellFormed : WellFormed r.entries)
    {program : List Statement} (representable : ∀ s ∈ program, s.Representable r) :
    ∃ a, Assembly.ofSource r (sourceText program) = .ok a ∧ a.diagnostics = [] ∧
      a.lines = (program.zipIdx 1).map fun (s, number) => s.encoded number := by
  have lines : sourceLines 1 (splitLines (sourceText program)) =
      (program.zipIdx 1).map fun (s, number) => ⟨number, 0, s.text⟩ := by
    rw [splitLines_sourceText representable, sourceLines_text representable]
  have word : ∀ p ∈ program.zipIdx 1, encodeLine r p.1.text = .ok p.1.instruction.word :=
    fun p member => Statement.encodeLine_text wellFormed
      (representable p.1 (List.fst_mem_of_mem_zipIdx member)).encodable
  have goesOn : ∀ stop, Assembly.ofSource r (sourceText program) ≠ .error stop := by
    intro stop stopped
    rw [Assembly.ofSource, lines] at stopped
    obtain ⟨line, member, count, stops⟩ := Assembly.ofLines_eq_error_iff.mp ⟨stop, stopped⟩
    obtain ⟨p, inProgram, rfl⟩ := List.mem_map.mp member
    rw [word p inProgram] at stops
    cases stops
  cases given : Assembly.ofSource r (sourceText program) with
  | error stop => exact absurd given (goesOn stop)
  | ok a =>
    rw [Assembly.ofSource, lines] at given
    obtain ⟨encodedLines, diagnosed⟩ := Assembly.ofLines_eq_ok given
    refine ⟨a, rfl, ?_, ?_⟩
    · rw [diagnosed, List.filterMap_map, List.filterMap_eq_nil_iff]
      intro p member
      simp only [Function.comp_apply, diagnosed?, word p member]
    · rw [encodedLines, List.filterMap_map, ← List.filterMap_eq_map]
      refine List.filterMap_congr fun p member => ?_
      simp only [Function.comp_apply, encoded?, word p member, Statement.encoded]

/-- A program of any length, over any registry, can be written as a source that
assembles to itself: each statement has its line, under its number, and the word
of that line holds the operation code and the operands of the statement.
Decoding gives them back, unless an earlier mnemonic has the same code. -/
theorem sourceText_assembles [Machine] {entries : List Entry} {flags : List Json} {r : Registry}
    {program : List Statement} (built : Registry.ofEntries entries flags = .ok r)
    (representable : ∀ s ∈ program, s.Representable r) :
    ∃ a, Assembly.ofSource r (sourceText program) = .ok a ∧ a.diagnostics = [] ∧
      a.lines.length = program.length ∧
      ∀ (n : Nat) (s : Statement), program[n]? = some s → ∃ w : Word,
        a.lines[n]? = some ⟨n + 1, s.text, w⟩ ∧
        (opcodeSlot.read w : Int) = s.opcode ∧
        (∀ field ∈ s.format.grammar.map Prod.fst, field.slot.read w = s.operands field) ∧
        (∀ field ∈ s.format.layout.fields, field.slot.read w = s.value field) ∧
        ((r.findOpcode? s.opcode).map (·.key) = some (Text.ofChars s.key) →
          Decoded.ofWord r w = .known s.opcode.toNat (trim s.key) s.format
            (s.format.layout.fields.map fun field => (field, s.value field))) := by
  have wellFormed := Registry.ofEntries_wellFormed built
  obtain ⟨a, given, clean, lines⟩ := ofSource_sourceText wellFormed representable
  refine ⟨a, given, clean, ?_, fun n s atIndex => ?_⟩
  · rw [lines, List.length_map, List.length_zipIdx]
  · have one := representable s (List.mem_of_getElem? atIndex)
    have found := (Registry.find?_eq_some_iff wellFormed).mpr ⟨one.registered, rfl⟩
    have range := Registry.find?_opcode_range wellFormed found
    refine ⟨s.instruction.word, ?_, Instruction.opcode_read_word_of_range range,
      fun field member => ?_, fun field member => Statement.field_read_word one member,
      fun first => ?_⟩
    · rw [lines, List.getElem?_map, List.getElem?_zipIdx, atIndex, Nat.add_comm]
      rfl
    · rw [← Statement.value_of_mem member]
      exact Statement.field_read_word one
        (s.format.grammar_fields_subset_layout field member)
    · have again := Registry.findOpcode?_of_first wellFormed found first
      have decoded : Decoded.ofWord r s.instruction.word = _ := Decoded.ofWord_word range again
      rw [decoded]
      refine congrArg _ (List.map_congr_left fun field member => ?_)
      rw [← s.instruction.field_read_word member, Int.toNat_natCast,
        Statement.field_read_word one member]

/-- A load without its indirection, and an input. -/
def loadAndInput : List Statement :=
  [⟨"LDR".toList, .one, 1, fun
      | .register => 2
      | .address => 100
      | _ => 0, true⟩,
    ⟨"IN".toList, .eight, 49, fun
      | .register => 3
      | .device => 31
      | _ => 0, false⟩]

theorem sourceText_assembles_loadAndInput :
    Registry.ofEntries standardEntries Registry.defaultFlags = .ok .standard ∧
    (∀ s ∈ loadAndInput, s.Representable .standard) ∧
    ∃ a, Assembly.ofSource .standard "LDR 2,0,100\nIN 3,31".toList = .ok a ∧
      a.diagnostics = [] ∧ a.lines.length = 2 := by
  have representable : ∀ s ∈ loadAndInput, s.Representable .standard := by
    decide
  have written : sourceText loadAndInput = "LDR 2,0,100\nIN 3,31".toList := by
    decide +kernel
  obtain ⟨a, given, clean, length, _⟩ :=
    sourceText_assembles Registry.ofEntries_standardEntries representable
  rw [written] at given
  exact ⟨Registry.ofEntries_standardEntries, representable, a, given, clean, length⟩

end WordAssembler
