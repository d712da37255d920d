import WordAssembler.Instruction
import WordAssembler.Proofs.Layout.Written
import WordAssembler.Proofs.Registry.Entries

namespace WordAssembler

theorem Instruction.read_eq_ok_iff {r : Registry} {line : List Char} {i : Instruction} :
    Instruction.read r line = .ok i ↔
      ∃ entry operands, r.find? (mnemonicKey line) = some entry ∧
        readOperands line entry.format (mnemonicKey line) = .ok operands ∧
        i = ⟨mnemonicKey line, entry.format, entry.opcode, operands⟩ := by
  cases found : r.find? (mnemonicKey line) with
  | none => simp [Instruction.read, found]
  | some entry =>
    simp only [Instruction.read, found, bind_eq_ok_iff, Option.some.injEq]
    constructor
    · rintro ⟨operands, given, equal⟩
      cases equal
      exact ⟨entry, operands, rfl, given, rfl⟩
    · rintro ⟨_, operands, rfl, given, rfl⟩
      exact ⟨operands, given, rfl⟩

/-- A registry takes part in reading a line through the entry of its mnemonic alone. -/
theorem encodeLine_congr [Machine] {r s : Registry} {line : List Char}
    (same : r.find? (mnemonicKey line) = s.find? (mnemonicKey line)) :
    encodeLine r line = encodeLine s line := by
  rw [encodeLine, encodeLine, Instruction.read, Instruction.read, same]

/-- A registry takes part in decoding a word through the first entry of its operation
code alone. -/
theorem Decoded.ofWord_congr {r s : Registry} {w : Word}
    (same : r.findOpcode? (opcodeSlot.read w) = s.findOpcode? (opcodeSlot.read w)) :
    Decoded.ofWord r w = Decoded.ofWord s w := by
  rw [Decoded.ofWord, Decoded.ofWord, same]

theorem Instruction.opcode_read_word_of_range [Machine] {i : Instruction}
    (range : 0 ≤ i.opcode ∧ i.opcode < 2 ^ opcodeSlot.width) :
    (opcodeSlot.read i.word : Int) = i.opcode := by
  rw [i.opcode_read_word, Int.emod_eq_of_lt range.1 range.2]

/-- A word is decoded as the instruction that it was written for, as long as
its operation code leads to the entry of that instruction. -/
theorem Decoded.ofWord_word [Machine] {r : Registry} {i : Instruction}
    (range : 0 ≤ i.opcode ∧ i.opcode < 2 ^ opcodeSlot.width)
    (first : r.findOpcode? i.opcode = some ⟨i.key, i.format, i.opcode⟩) :
    Decoded.ofWord r i.word = .known i.opcode.toNat (trim i.key) i.format
      (i.format.layout.fields.map fun field =>
        (field, (i.operands field % 2 ^ field.slot.width).toNat)) := by
  have opcode := Instruction.opcode_read_word_of_range range
  have values : i.format.layout.read i.word = i.format.layout.fields.map fun field =>
      (field, (i.operands field % 2 ^ field.slot.width).toNat) := by
    refine List.map_congr_left fun field member => ?_
    rw [← i.field_read_word member, Int.toNat_natCast]
  have number : opcodeSlot.read i.word = i.opcode.toNat := by omega
  simp only [Decoded.ofWord, opcode, first, values, Text.trim_ofChars]
  rw [number]

/-- What is encoded can be read off the word: its operation code, the operands
of the line reduced to their slots, and nothing else. Decoding names them
again, unless an earlier mnemonic has the same operation code. -/
theorem encodeLine_decoded [Machine] {entries : List Entry} {flags : List Json} {r : Registry}
    {line : List Char} {w : Word} (built : Registry.ofEntries entries flags = .ok r)
    (encoded : encodeLine r line = .ok w) :
    ∃ entry operands,
      r.find? (mnemonicKey line) = some entry ∧
      readOperands line entry.format (mnemonicKey line) = .ok operands ∧
      (opcodeSlot.read w : Int) = entry.opcode ∧
      (∀ field ∈ entry.format.layout.fields,
        (field.slot.read w : Int) = operands field % 2 ^ field.slot.width) ∧
      (∀ j, ¬ opcodeSlot.Covers j →
        (∀ field ∈ entry.format.layout.fields, ¬ field.slot.Covers j) → w.bit j = false) ∧
      ((r.findOpcode? entry.opcode).map (·.key) = some (mnemonicKey line) →
        Decoded.ofWord r w = .known entry.opcode.toNat (trim (mnemonicKey line)) entry.format
          (entry.format.layout.fields.map fun field =>
            (field, (operands field % 2 ^ field.slot.width).toNat))) := by
  have wellFormed := Registry.ofEntries_wellFormed built
  obtain ⟨i, given, rfl⟩ := map_eq_ok_iff.mp encoded
  obtain ⟨entry, operands, found, operandsRead, rfl⟩ := Instruction.read_eq_ok_iff.mp given
  have range := Registry.find?_opcode_range wellFormed found
  have key := ((Registry.find?_eq_some_iff wellFormed).mp found).2
  refine ⟨entry, operands, found, operandsRead, Instruction.opcode_read_word_of_range range,
    fun field member => Instruction.field_read_word _ member,
    fun j opcode fields => Instruction.bit_word_of_not_covers _ opcode fields, fun first => ?_⟩
  have again := Registry.findOpcode?_of_first wellFormed found first
  refine Decoded.ofWord_word range ?_
  rw [again, ← key]

/-- A shift whose operands are too large for their slots, or negative. -/
theorem encodeLine_decoded_shift :
    Registry.ofEntries standardEntries Registry.defaultFlags = .ok .standard ∧
    encodeLine .standard "SRC 3,17,-1,-2".toList = .ok ⟨131814⟩ ∧
    ∃ entry operands,
      Registry.standard.find? (mnemonicKey "SRC 3,17,-1,-2".toList) = some entry ∧
      readOperands "SRC 3,17,-1,-2".toList entry.format (mnemonicKey "SRC 3,17,-1,-2".toList) =
        .ok operands ∧
      (opcodeSlot.read (⟨131814⟩ : Word) : Int) = entry.opcode ∧
      (∀ field ∈ entry.format.layout.fields,
        (field.slot.read (⟨131814⟩ : Word) : Int) = operands field % 2 ^ field.slot.width) ∧
      (∀ j, ¬ opcodeSlot.Covers j →
        (∀ field ∈ entry.format.layout.fields, ¬ field.slot.Covers j) →
        (⟨131814⟩ : Word).bit j = false) ∧
      ((Registry.standard.findOpcode? entry.opcode).map (·.key) =
          some (mnemonicKey "SRC 3,17,-1,-2".toList) →
        Decoded.ofWord .standard ⟨131814⟩ =
          .known entry.opcode.toNat (trim (mnemonicKey "SRC 3,17,-1,-2".toList)) entry.format
            (entry.format.layout.fields.map fun field =>
              (field, (operands field % 2 ^ field.slot.width).toNat))) := by
  have encoded : encodeLine .standard "SRC 3,17,-1,-2".toList = .ok ⟨131814⟩ := by
    decide +kernel
  exact ⟨Registry.ofEntries_standardEntries, encoded,
    encodeLine_decoded Registry.ofEntries_standardEntries encoded⟩

end WordAssembler
