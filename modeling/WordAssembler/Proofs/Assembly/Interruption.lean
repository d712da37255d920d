import WordAssembler.Proofs.Assembly.Lines
import WordAssembler.Proofs.Instruction.Decoded
import WordAssembler.Proofs.Operand.Grammar

namespace WordAssembler

/-- The first operand of a line that is not read has `count` digits, more than
are read, and so ends the work instead of being reported. -/
def Interrupts (r : Registry) (line : List Char) (count : Nat) : Prop :=
  ∃ entry before p after text,
    r.find? (mnemonicKey line) = some entry ∧
    entry.format.grammar = before ++ p :: after ∧
    (∀ q ∈ before, ∃ value,
      readPlace line (entry.format.column (mnemonicKey line)) q.1.label q.2 = .ok value) ∧
    operandText? line (entry.format.column (mnemonicKey line)) p.2 = some text ∧
    Overlong text count

theorem Instruction.read_eq_error_iff {r : Registry} {line : List Char} {fault : LineFault} :
    Instruction.read r line = .error fault ↔
      (r.find? (mnemonicKey line) = none ∧
        fault = .reported (.unknownOpcode (mnemonicKey line))) ∨
      ∃ entry, r.find? (mnemonicKey line) = some entry ∧
        readOperands line entry.format (mnemonicKey line) = .error fault := by
  cases found : r.find? (mnemonicKey line) with
  | none => simp [Instruction.read, found, eq_comm]
  | some entry =>
    simp only [Instruction.read, found, bind_eq_error_iff, reduceCtorEq, false_and, false_or,
      Option.some.injEq, exists_eq_left']
    constructor
    · rintro (stops | ⟨_, _, impossible⟩)
      · exact stops
      · cases impossible
    · exact Or.inl

theorem encodeLine_stops_iff [Machine] {r : Registry} {line : List Char} {fault : LineFault} :
    encodeLine r line = .error fault ↔
      (r.find? (mnemonicKey line) = none ∧
        fault = .reported (.unknownOpcode (mnemonicKey line))) ∨
      ∃ entry, r.find? (mnemonicKey line) = some entry ∧
        readOperands line entry.format (mnemonicKey line) = .error fault :=
  encodeLine_eq_error_iff.trans Instruction.read_eq_error_iff

theorem encodeLine_eq_tooManyDigits_iff [Machine] {r : Registry} {line : List Char} {count : Nat} :
    encodeLine r line = .error (.tooManyDigits count) ↔ Interrupts r line count := by
  rw [encodeLine_stops_iff]
  constructor
  · rintro (⟨_, impossible⟩ | ⟨entry, found, stops⟩)
    · cases impossible
    · obtain ⟨before, p, after, split, through, atPlace⟩ := readOperands_eq_error_iff.mp stops
      obtain ⟨text, here, long⟩ := readPlace_eq_tooManyDigits_iff.mp atPlace
      exact ⟨entry, before, p, after, text, found, split, through, here, long⟩
  · rintro ⟨entry, before, p, after, text, found, split, through, here, long⟩
    have atPlace : readPlace line (entry.format.column (mnemonicKey line)) p.1.label p.2 =
        .error (.tooManyDigits count) :=
      readPlace_eq_tooManyDigits_iff.mpr ⟨text, here, long⟩
    exact Or.inr ⟨entry, found,
      readOperands_eq_error_iff.mpr ⟨before, p, after, split, through, atPlace⟩⟩

/-- What is reported about a line of a registered mnemonic is about one of the
operands of its format. -/
theorem readOperands_reported {line : List Char} {format : Format} {key : List Char}
    {e : LineError} (failed : readOperands line format key = .error (.reported e)) :
    ∃ p ∈ format.grammar, ∃ fault column, e = .operand p.1.label fault column := by
  obtain ⟨before, p, after, split, _, atPlace⟩ := readOperands_eq_error_iff.mp failed
  obtain ⟨fault, equal⟩ := readPlace_reported atPlace
  exact ⟨p, by rw [split]; exact List.mem_append_cons_self, fault, _, equal⟩

/-- A line gives a word, or is reported as unknown or as malformed, or else
interrupts the work. -/
theorem encodeLine_outcome [Machine] (r : Registry) (line : List Char) :
    (∃ w, encodeLine r line = .ok w) ∨
    (r.find? (mnemonicKey line) = none ∧
      encodeLine r line = .error (.reported (.unknownOpcode (mnemonicKey line)))) ∨
    (∃ entry, r.find? (mnemonicKey line) = some entry ∧ ∃ p ∈ entry.format.grammar,
      ∃ fault column,
        encodeLine r line = .error (.reported (.operand p.1.label fault column))) ∨
    ∃ count, Interrupts r line count := by
  cases given : encodeLine r line with
  | ok w => exact Or.inl ⟨w, rfl⟩
  | error fault =>
    refine Or.inr ?_
    cases fault with
    | tooManyDigits count => exact Or.inr (Or.inr ⟨count, encodeLine_eq_tooManyDigits_iff.mp given⟩)
    | reported e =>
      rcases encodeLine_stops_iff.mp given with ⟨unknown, equal⟩ | ⟨entry, found, stops⟩
      · exact Or.inl ⟨unknown, by rw [equal]⟩
      · obtain ⟨p, member, fault, column, equal⟩ := readOperands_reported stops
        exact Or.inr (Or.inl ⟨entry, found, p, member, fault, column, by rw [equal]⟩)

/-- What a line is refused with is an error in the program, unless an overlong
operand interrupts the work, which no handler of such errors handles. -/
theorem encodeLine_faultClass [Machine] {r : Registry} {line : List Char} {fault : LineFault}
    (failed : encodeLine r line = .error fault) :
    (fault.faultClass.IsEncoding ∧ ¬ ∃ count, Interrupts r line count) ∨
      fault.faultClass = .value ∧ ∃ count, Interrupts r line count := by
  cases fault with
  | tooManyDigits count => exact Or.inr ⟨rfl, count, encodeLine_eq_tooManyDigits_iff.mp failed⟩
  | reported e =>
    refine Or.inl ⟨⟨e.kind, rfl⟩, ?_⟩
    rintro ⟨count, interrupts⟩
    rw [encodeLine_eq_tooManyDigits_iff.mpr interrupts] at failed
    cases failed

/-- An overlong operand is all that keeps a line from being encoded or reported,
and all that keeps a source from being assembled: no write into a word is ever
refused, and each line of a source without such an operand gives its word or
its diagnostic, also after a faulty one. -/
theorem interrupted_only_by_overlong [Machine] (r : Registry) :
    (∀ line,
      (∃ w, encodeLine r line = .ok w) ∨
      (r.find? (mnemonicKey line) = none ∧
        encodeLine r line = .error (.reported (.unknownOpcode (mnemonicKey line)))) ∨
      (∃ entry, r.find? (mnemonicKey line) = some entry ∧ ∃ p ∈ entry.format.grammar,
        ∃ fault column,
          encodeLine r line = .error (.reported (.operand p.1.label fault column))) ∨
      ∃ count, Interrupts r line count) ∧
    (∀ line fault, encodeLine r line = .error fault →
      (fault.faultClass.IsEncoding ∧ ¬ ∃ count, Interrupts r line count) ∨
        fault.faultClass = .value ∧ ∃ count, Interrupts r line count) ∧
    (∀ line count,
      encodeLine r line = .error (.tooManyDigits count) ↔ Interrupts r line count) ∧
    (∀ line i, Instruction.read r line = .ok i →
      (i.format.layout.write i.opcode i.operands (Bits.blank : Word)).fault = none) ∧
    (∀ source,
      (∃ stop, Assembly.ofSource r source = .error stop) ↔
        ∃ raw ∈ splitLines source, instructionText raw ≠ [] ∧
          ∃ count, Interrupts r (instructionText raw) count) ∧
    ∀ source a, Assembly.ofSource r source = .ok a →
      ∀ n raw, (splitLines source)[n]? = some raw → instructionText raw ≠ [] →
        (∃ w, encodeLine r (instructionText raw) = .ok w ∧
          ⟨1 + n, instructionText raw, w⟩ ∈ a.lines) ∨
        ∃ e, encodeLine r (instructionText raw) = .error (.reported e) ∧
          .ofFinding e.finding (1 + n : Nat) (instructionText raw) (indentWidth raw) ∈
            a.diagnostics := by
  refine ⟨encodeLine_outcome r, fun line fault => encodeLine_faultClass,
    fun line count => encodeLine_eq_tooManyDigits_iff,
    fun line i _ => i.write_fault, fun source => ?_, fun source a given n raw atRaw someText =>
      Assembly.ofSource_line given atRaw someText⟩
  simp only [Assembly.ofSource_eq_error_iff, encodeLine_eq_tooManyDigits_iff]

/-- The first operand of this line is the number seven, written with too many
zeros before it. -/
def zeroFilledLine : List Char :=
  "RFS ".toList ++ (List.replicate maxDigits '0' ++ ['7'])

theorem zeroFilledLine_interrupts : Interrupts .standard zeroFilledLine (maxDigits + 1) := by
  have digits : ∀ c ∈ List.replicate maxDigits '0' ++ ['7'], c.isDigit := by
    intro c member
    rcases List.mem_append.mp member with zero | seven
    · rw [List.eq_of_mem_replicate zero]
      rfl
    · rw [List.mem_singleton.mp seven]
      rfl
  have count : (List.replicate maxDigits '0' ++ ['7']).length = maxDigits + 1 := by
    rw [List.length_append, List.length_replicate, List.length_singleton]
  have long := overlong_of_isDigit digits (by rw [count]; exact Nat.lt_succ_self _)
  rw [count] at long
  exact ⟨.ofWord "RFS" .four 13, [], (.address, .tail), [], _, rfl, rfl, by simp, rfl, long⟩

/-- A number that fits its operand is neither encoded nor reported. -/
theorem zeroFilledLine_not_encoded_or_reported :
    ¬ ((∃ w, encodeLine .standard zeroFilledLine = .ok w) ∨
      ∃ fault, encodeLine .standard zeroFilledLine = .error fault ∧
        fault.faultClass.IsEncoding) := by
  have stops := encodeLine_eq_tooManyDigits_iff.mpr zeroFilledLine_interrupts
  rw [stops]
  rintro (⟨_, impossible⟩ | ⟨fault, same, kind, reported⟩)
  · cases impossible
  · cases same
    cases reported

end WordAssembler
