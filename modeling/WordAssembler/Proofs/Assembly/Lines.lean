import WordAssembler.Assembly
import WordAssembler.Proofs.Except

namespace WordAssembler

/-- The word that a line adds to an assembly, if it gives one. -/
def encoded? [Machine] (r : Registry) (line : SourceLine) : Option EncodedLine :=
  match encodeLine r line.text with
  | .ok w => some ⟨line.number, line.text, w⟩
  | .error _ => none

/-- The diagnostic that a line adds to an assembly, if it is at fault. -/
def diagnosed? [Machine] (r : Registry) (line : SourceLine) : Option Diagnostic :=
  match encodeLine r line.text with
  | .error (.reported e) => some (.ofFinding e.finding line.number line.text line.indent)
  | _ => none

theorem encodeLine_eq_error_iff [Machine] {r : Registry} {line : List Char} {fault : LineFault} :
    encodeLine r line = .error fault ↔ Instruction.read r line = .error fault :=
  map_eq_error_iff

namespace Assembly

variable [Machine]

theorem ofLine_eq_ok {r : Registry} {line : SourceLine} {a : Assembly}
    (given : ofLine r line = .ok a) :
    a.lines = (encoded? r line).toList ∧ a.diagnostics = (diagnosed? r line).toList := by
  unfold ofLine at given
  split at given
  · rename_i i atLine
    have word : encodeLine r line.text = .ok i.word := map_eq_ok_iff.mpr ⟨i, atLine, rfl⟩
    cases given
    simp only [encoded?, diagnosed?, word, Option.toList_some, Option.toList_none, and_self]
  · rename_i e atLine
    have fault := encodeLine_eq_error_iff.mpr atLine
    cases given
    simp only [encoded?, diagnosed?, fault, Option.toList_some, Option.toList_none, and_self]
  · cases given

theorem ofLine_eq_error_iff {r : Registry} {line : SourceLine} {count : Nat} :
    ofLine r line = .error count ↔ encodeLine r line.text = .error (.tooManyDigits count) := by
  rw [encodeLine_eq_error_iff, ofLine]
  cases Instruction.read r line.text with
  | ok i => simp
  | error fault => cases fault <;> simp

/-- An assembly holds, in the order of the lines, the word of each line that
gives one and the diagnostic of each line that is at fault. -/
theorem ofLines_eq_ok {r : Registry} {lines : List SourceLine} {a : Assembly}
    (given : ofLines r lines = .ok a) :
    a.lines = lines.filterMap (encoded? r) ∧ a.diagnostics = lines.filterMap (diagnosed? r) := by
  induction lines generalizing a with
  | nil =>
    cases given
    exact ⟨rfl, rfl⟩
  | cons line rest ih =>
    unfold ofLines at given
    split at given
    · cases given
    · rename_i first atFirst
      split at given
      · rename_i others atRest
        cases given
        have one := ofLine_eq_ok atFirst
        have more := ih atRest
        constructor
        · change first.lines ++ others.lines = _
          rw [one.1, more.1, List.filterMap_cons]
          cases encoded? r line <;> rfl
        · change first.diagnostics ++ others.diagnostics = _
          rw [one.2, more.2, List.filterMap_cons]
          cases diagnosed? r line <;> rfl
      · cases given

/-- Work on lines is interrupted if and only if some line interrupts it. -/
theorem ofLines_eq_error_iff {r : Registry} {lines : List SourceLine} :
    (∃ stop, ofLines r lines = .error stop) ↔
      ∃ line ∈ lines, ∃ count, encodeLine r line.text = .error (.tooManyDigits count) := by
  induction lines with
  | nil => simp [ofLines]
  | cons line rest ih =>
    rw [List.exists_mem_cons_iff, ← ih]
    cases atFirst : ofLine r line with
    | error count =>
      have stops := ofLine_eq_error_iff.mp atFirst
      simp only [ofLines, atFirst, Except.error.injEq, exists_eq', true_iff]
      exact Or.inl ⟨count, stops⟩
    | ok first =>
      have goesOn : ¬ ∃ count, encodeLine r line.text = .error (.tooManyDigits count) := by
        rintro ⟨count, stops⟩
        rw [ofLine_eq_error_iff.mpr stops] at atFirst
        cases atFirst
      rw [or_iff_right goesOn]
      cases atRest : ofLines r rest with
      | error stop => simp only [ofLines, atFirst, atRest, Except.error.injEq, exists_eq']
      | ok others => simp only [ofLines, atFirst, atRest, reduceCtorEq, exists_false]

end Assembly

/-- What is left of a line without its comment and the blanks around it. -/
def instructionText (raw : List Char) : List Char :=
  trimStart (withoutComment raw)

/-- The width of the blanks before the instruction in a line. -/
def indentWidth (raw : List Char) : Nat :=
  (withoutComment raw).length - (instructionText raw).length

theorem SourceLine.ofRaw?_eq_some_iff {number : Nat} {raw : List Char} {line : SourceLine} :
    SourceLine.ofRaw? number raw = some line ↔ instructionText raw ≠ [] ∧
      line = ⟨number, indentWidth raw, instructionText raw⟩ := by
  simp only [SourceLine.ofRaw?, indentWidth, instructionText]
  split
  · rename_i blank
    simp only [blank, reduceCtorEq, ne_eq, not_true_eq_false, false_and]
  · rename_i text
    simp only [text, Option.some.injEq, ne_eq, not_false_eq_true, true_and, eq_comm]

theorem mem_sourceLines_iff {line : SourceLine} {first : Nat} {raws : List (List Char)} :
    line ∈ sourceLines first raws ↔
      ∃ n raw, raws[n]? = some raw ∧ SourceLine.ofRaw? (first + n) raw = some line := by
  simp only [sourceLines, List.mem_filterMap, Prod.exists,
    List.mk_mem_zipIdx_iff_le_and_getElem?_sub]
  constructor
  · rintro ⟨raw, number, ⟨start, atRaw⟩, given⟩
    exact ⟨number - first, raw, atRaw, by rwa [Nat.add_sub_of_le start]⟩
  · rintro ⟨n, raw, atRaw, given⟩
    exact ⟨raw, first + n, ⟨Nat.le_add_right .., by rwa [Nat.add_sub_cancel_left]⟩, given⟩

namespace Assembly

variable [Machine]

theorem ofSource_eq_error_iff {r : Registry} {source : List Char} :
    (∃ stop, ofSource r source = .error stop) ↔
      ∃ raw ∈ splitLines source, instructionText raw ≠ [] ∧
        ∃ count, encodeLine r (instructionText raw) = .error (.tooManyDigits count) := by
  rw [ofSource, ofLines_eq_error_iff]
  constructor
  · rintro ⟨line, member, stops⟩
    obtain ⟨n, raw, atRaw, given⟩ := mem_sourceLines_iff.mp member
    obtain ⟨someText, rfl⟩ := SourceLine.ofRaw?_eq_some_iff.mp given
    exact ⟨raw, List.mem_of_getElem? atRaw, someText, stops⟩
  · rintro ⟨raw, member, someText, stops⟩
    obtain ⟨n, atRaw⟩ := List.mem_iff_getElem?.mp member
    have given : SourceLine.ofRaw? (1 + n) raw = some _ :=
      SourceLine.ofRaw?_eq_some_iff.mpr ⟨someText, rfl⟩
    exact ⟨_, mem_sourceLines_iff.mpr ⟨n, raw, atRaw, given⟩, stops⟩

/-- Each line of a source that is assembled and is not blank is accounted for
under its number, whatever the lines before it gave. -/
theorem ofSource_line {r : Registry} {source : List Char} {a : Assembly}
    (given : ofSource r source = .ok a) {n : Nat} {raw : List Char}
    (atRaw : (splitLines source)[n]? = some raw) (someText : instructionText raw ≠ []) :
    (∃ w, encodeLine r (instructionText raw) = .ok w ∧
      ⟨1 + n, instructionText raw, w⟩ ∈ a.lines) ∨
    ∃ e, encodeLine r (instructionText raw) = .error (.reported e) ∧
      .ofFinding e.finding (1 + n : Nat) (instructionText raw) (indentWidth raw) ∈
        a.diagnostics := by
  have parts := ofLines_eq_ok given
  have isLine : SourceLine.ofRaw? (1 + n) raw = some _ :=
    SourceLine.ofRaw?_eq_some_iff.mpr ⟨someText, rfl⟩
  have member := mem_sourceLines_iff.mpr ⟨n, raw, atRaw, isLine⟩
  rw [parts.1, parts.2]
  cases atLine : encodeLine r (instructionText raw) with
  | ok w =>
    refine Or.inl ⟨w, rfl, List.mem_filterMap.mpr ⟨_, member, ?_⟩⟩
    simp only [encoded?, atLine]
  | error fault =>
    cases fault with
    | reported e =>
      refine Or.inr ⟨e, rfl, List.mem_filterMap.mpr ⟨_, member, ?_⟩⟩
      simp only [diagnosed?, atLine]
    | tooManyDigits count =>
      have stops : ∃ stop, ofLines r (sourceLines 1 (splitLines source)) = .error stop :=
        ofLines_eq_error_iff.mpr ⟨_, member, count, atLine⟩
      obtain ⟨stop, stopped⟩ := stops
      rw [ofSource, stopped] at given
      cases given

end Assembly

end WordAssembler
