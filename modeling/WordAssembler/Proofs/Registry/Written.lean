import WordAssembler.Proofs.Registry.Load
import WordAssembler.Proofs.Registry.Registration
import WordAssembler.Proofs.Text.Literal

namespace WordAssembler

/-- A basic Latin capital is the capital form of a letter that stands for nothing else. -/
theorem latinUpper_of_isUpper {c : Char} (capital : c.toUpper.isUpper) :
    latinUpper c = [c.toUpper] := by
  unfold latinUpper
  by_cases lower : c.isLower
  · rw [if_pos lower]
  · have unchanged : c.toUpper = c :=
      dif_neg fun within => lower (Bool.and_eq_true_iff.mpr
        ⟨decide_eq_true within.1, decide_eq_true within.2⟩)
    rw [unchanged] at capital ⊢
    rw [if_neg lower]
    split
    case h_11 => rfl
    all_goals contradiction

theorem latinUpperText_of_capitals {text name : List Char} (capitals : ∀ c ∈ name, c.isUpper)
    (same : text.map Char.toUpper = name) : latinUpperText text = name := by
  subst same
  rw [latinUpperText, List.flatMap_congr fun c member =>
    latinUpper_of_isUpper (capitals _ (List.mem_map_of_mem member))]
  exact List.flatMap_pure_eq_map _ _

namespace Format

theorem ofNumber?_number (format : Format) : ofNumber? format.number = some format := by
  cases format <;> rfl

theorem ofText?_of_name {format : Format} {text : List Char}
    (same : text.map Char.toUpper = format.name.toList) : ofText? text = some format := by
  have capitals : format.name.toList.all Char.isUpper := by cases format <;> rfl
  rw [ofText?, Text.toChars_ofChars, latinUpperText_of_capitals (List.all_eq_true.mp capitals) same]
  cases format <;> decide

end Format

/-- The ways of writing a format: by its number, or by its name in letters of either case. -/
inductive FormatSpelling (format : Format)
  | number
  | name (text : List Char) (same : text.map Char.toUpper = format.name.toList)

/-- The value in which a format is written. -/
def FormatSpelling.value {format : Format} : FormatSpelling format → Json
  | .number => .int format.number
  | .name text _ => .text text

/-- The ways of writing an operation code: as a number, or as a literal in one of the
radices. -/
inductive OpcodeSpelling
  | number
  | literal (r : Radix)
  deriving DecidableEq, Repr

/-- The value in which an operation code is written. -/
def OpcodeSpelling.value (opcode : Nat) : OpcodeSpelling → Json
  | .number => .int opcode
  | .literal r => .text (r.literal opcode)

/-- An entry with the way in which it is written. Its operation code has no more digits than
are read. -/
structure WrittenEntry where
  key : Text
  format : Format
  opcode : Nat
  short : Writable opcode
  formatSpelling : FormatSpelling format
  opcodeSpelling : OpcodeSpelling

namespace WrittenEntry

/-- The entry itself. -/
def entry (w : WrittenEntry) : Entry :=
  ⟨w.key, w.format, w.opcode⟩

/-- The item of an instruction list in which the entry is written. -/
def item (w : WrittenEntry) : Json :=
  .object [("mnemonic".toList, .text w.key), ("format".toList, w.formatSpelling.value),
    ("opcode".toList, w.opcodeSpelling.value w.opcode)]

end WrittenEntry

/-- The value in which entries and flags are written. -/
def writtenRegistry (entries : List WrittenEntry) (flags : List Int) : Json :=
  .object [("instructions".toList, .list (entries.map WrittenEntry.item)),
    ("index_to_flags".toList, .list (flags.map Json.int))]

theorem Format.ofJson_value {format : Format} (spelling : FormatSpelling format) :
    ofJson spelling.value = .ok format := by
  cases spelling with
  | number => rw [FormatSpelling.value, ofJson, ofNumber?_number, Option.elim_some]
  | name text same => rw [FormatSpelling.value, ofJson, ofText?_of_name same, Option.elim_some]

theorem opcodeOfJson_value {opcode : Nat} (short : Writable opcode) (spelling : OpcodeSpelling) :
    opcodeOfJson (spelling.value opcode) = .ok opcode := by
  cases spelling with
  | number => rfl
  | literal r =>
    rw [OpcodeSpelling.value, opcodeOfJson, Text.toChars_ofChars,
      Radix.readLiteral_literal fun _ => short]

namespace Registry

theorem entryOfJson_item (w : WrittenEntry) : entryOfJson w.item = .ok w.entry := by
  have atMnemonic : itemMember w.item "mnemonic".toList = .ok (.text w.key) := rfl
  have atFormat : itemMember w.item "format".toList = .ok w.formatSpelling.value := rfl
  have atOpcode : itemMember w.item "opcode".toList = .ok (w.opcodeSpelling.value w.opcode) := rfl
  have opcode : itemOpcode w.item (w.opcodeSpelling.value w.opcode) = .ok w.opcode := by
    rw [itemOpcode, opcodeOfJson_value w.short]
  have format := Format.ofJson_value w.formatSpelling
  exact bind_eq_ok_iff.mpr ⟨_, atMnemonic, bind_eq_ok_iff.mpr ⟨_, atFormat,
    bind_eq_ok_iff.mpr ⟨_, mapError_eq_ok_iff.mpr format, bind_eq_ok_iff.mpr ⟨_, atOpcode,
      bind_eq_ok_iff.mpr ⟨_, opcode, rfl⟩⟩⟩⟩⟩

/-- What is written is what would be registered, or it is refused for the reason for which
registration would be refused. -/
theorem ofJson_writtenRegistry [Machine] (entries : List WrittenEntry) (flags : List Int) :
    ofJson (writtenRegistry entries flags) =
      (ofEntries (entries.map WrittenEntry.entry) (flags.map Json.int)).mapError .table := by
  have items : (entries.map WrittenEntry.item).mapM entryOfJson =
      (pure (entries.map WrittenEntry.entry) : Except DocumentFault (List Entry)) := by
    have each : entryOfJson ∘ WrittenEntry.item = fun w => pure w.entry := funext entryOfJson_item
    rw [List.mapM_map, each, List.mapM_pure]
  have read : ofJson (writtenRegistry entries flags) = (do
      let read ← (entries.map WrittenEntry.item).mapM entryOfJson
      (checkEntries [] read).mapError .table
      return ⟨read, flags.map Json.int⟩) := rfl
  rw [read, items, pure_bind, ofEntries]
  cases checkEntries [] (entries.map WrittenEntry.entry) with
  | error fault => rfl
  | ok _ => rfl

end Registry

/-- Loading undoes writing. However the formats and operation codes of entries are spelled,
what is loaded is the registry that the entries and the flags would be registered as; and if
registration would refuse them, loading does, and tells the reason as an unfit value. -/
theorem written_loads_as_registered [Machine] (entries : List WrittenEntry) (flags : List Int) :
    (∀ r, Registry.ofEntries (entries.map WrittenEntry.entry) (flags.map Json.int) = .ok r →
      Registry.ofJson (writtenRegistry entries flags) = .ok r) ∧
    ∀ fault,
      Registry.ofEntries (entries.map WrittenEntry.entry) (flags.map Json.int) = .error fault →
      Registry.ofJson (writtenRegistry entries flags) = .error (.table fault) ∧
        (DocumentFault.table fault).faultClass = .value := by
  constructor
  · intro r registered
    rw [Registry.ofJson_writtenRegistry]
    exact mapError_eq_ok_iff.mpr registered
  · intro fault refused
    have read : Registry.ofJson (writtenRegistry entries flags) = .error (.table fault) := by
      rw [Registry.ofJson_writtenRegistry, refused]
      rfl
    refine ⟨read, (Registry.ofJson_error_cases read).resolve_right ?_⟩
    rintro ⟨v, impossible⟩
    cases impossible

/-- Two entries that are spelled in several ways. -/
def variedEntries : List WrittenEntry :=
  [⟨"LDR".toList, .one, 1, by decide +kernel, .name "oNe".toList rfl, .literal .octal⟩,
    ⟨"IN".toList, .eight, 49, by decide +kernel, .number, .literal .hexadecimal⟩]

/-- An entry whose operation code is too large. -/
def overwideEntry : WrittenEntry :=
  ⟨"OUT".toList, .eight, 64, by decide +kernel, .name "Eight".toList rfl, .literal .binary⟩

theorem written_loads_as_registered_variedEntries :
    Registry.ofJson (writtenRegistry variedEntries [8, 4]) =
      .ok ⟨[⟨"LDR".toList, .one, 1⟩, ⟨"IN".toList, .eight, 49⟩], [.int 8, .int 4]⟩ ∧
    Registry.ofJson (writtenRegistry (variedEntries ++ [overwideEntry]) []) =
      .error (.table (.opcode (.overflow 64 false 6))) := by
  have registered : Registry.ofEntries (variedEntries.map WrittenEntry.entry) [.int 8, .int 4] =
      .ok ⟨[⟨"LDR".toList, .one, 1⟩, ⟨"IN".toList, .eight, 49⟩], [.int 8, .int 4]⟩ := rfl
  have written : ∀ e ∈ (variedEntries ++ [overwideEntry]).map WrittenEntry.entry,
      Writable e.opcode := by
    decide +kernel
  have refused : Registry.ofEntries ((variedEntries ++ [overwideEntry]).map WrittenEntry.entry) [] =
      .error (.opcode (.overflow 64 false 6)) :=
    (Registry.ofEntries_eq_error_iff written).mpr ⟨variedEntries.map WrittenEntry.entry,
      overwideEntry.entry, [], rfl, Registry.ofEntries_wellFormed registered,
      .opcode (by decide) (by decide) (by decide)⟩
  exact ⟨(written_loads_as_registered variedEntries [8, 4]).1 _ registered,
    ((written_loads_as_registered (variedEntries ++ [overwideEntry]) []).2 _ refused).1⟩

end WordAssembler
