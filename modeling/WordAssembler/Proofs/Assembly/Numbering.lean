import WordAssembler.Proofs.Assembly.Lines
import WordAssembler.Proofs.Text.Line

namespace WordAssembler

/-- The same line, `count` lines further down. Words and diagnostics move alike. -/
def SourceLine.later (count : Nat) (line : SourceLine) : SourceLine :=
  { line with number := line.number + count }

def EncodedLine.later (count : Nat) (line : EncodedLine) : EncodedLine :=
  { line with number := line.number + count }

def Diagnostic.later (count : Nat) (d : Diagnostic) : Diagnostic :=
  { d with span := { d.span with line := d.span.line + count } }

theorem encoded?_eq_some_iff [Machine] {r : Registry} {line : SourceLine} {e : EncodedLine} :
    encoded? r line = some e ↔
      ∃ w, encodeLine r line.text = .ok w ∧ e = ⟨line.number, line.text, w⟩ := by
  unfold encoded?
  cases encodeLine r line.text <;> simp [eq_comm]

theorem diagnosed?_eq_some_iff [Machine] {r : Registry} {line : SourceLine} {d : Diagnostic} :
    diagnosed? r line = some d ↔ ∃ e, encodeLine r line.text = .error (.reported e) ∧
      d = .ofFinding e.finding line.number line.text line.indent := by
  unfold diagnosed?
  cases encodeLine r line.text with
  | ok w => simp
  | error fault => cases fault <;> simp [eq_comm]

theorem line_ofFinding (f : Finding) (line : Int) (text : List Char) (indent : Int) :
    (Diagnostic.ofFinding f line text indent).span.line = line := by
  unfold Diagnostic.ofFinding
  cases f.column <;> rfl

theorem encoded?_later [Machine] (r : Registry) (count : Nat) (line : SourceLine) :
    encoded? r (line.later count) = (encoded? r line).map (.later count) := by
  unfold encoded? SourceLine.later
  cases encodeLine r line.text <;> rfl

theorem ofFinding_later (f : Finding) (line count : Nat) (text : List Char) (indent : Int) :
    Diagnostic.ofFinding f (line + count : Nat) text indent =
      (Diagnostic.ofFinding f line text indent).later count := by
  unfold Diagnostic.ofFinding Diagnostic.later
  cases f.column <;> rfl

theorem diagnosed?_later [Machine] (r : Registry) (count : Nat) (line : SourceLine) :
    diagnosed? r (line.later count) = (diagnosed? r line).map (.later count) := by
  unfold diagnosed? SourceLine.later
  cases encodeLine r line.text with
  | ok w => rfl
  | error fault =>
    cases fault with
    | reported e => exact congrArg some (ofFinding_later e.finding line.number count _ _)
    | tooManyDigits digits => rfl

theorem sourceLines_append (first : Nat) (raws others : List (List Char)) :
    sourceLines first (raws ++ others) =
      sourceLines first raws ++ sourceLines (first + raws.length) others := by
  rw [sourceLines, List.zipIdx_append, List.filterMap_append]
  rfl

theorem SourceLine.ofRaw?_eq (number : Nat) (raw : List Char) :
    SourceLine.ofRaw? number raw =
      if instructionText raw = [] then none
      else some ⟨number, indentWidth raw, instructionText raw⟩ :=
  rfl

theorem SourceLine.ofRaw?_later (number count : Nat) (raw : List Char) :
    SourceLine.ofRaw? (number + count) raw = (SourceLine.ofRaw? number raw).map (.later count) := by
  rw [ofRaw?_eq, ofRaw?_eq]
  split <;> rfl

theorem sourceLines_later (first count : Nat) (raws : List (List Char)) :
    sourceLines (first + count) raws = (sourceLines first raws).map (.later count) := by
  rw [sourceLines, Nat.add_comm, ← List.map_snd_add_zipIdx_eq_zipIdx, List.filterMap_map,
    sourceLines, List.map_filterMap]
  exact List.filterMap_congr fun p _ => SourceLine.ofRaw?_later p.2 count p.1

/-- Each instruction has a number of its own, and a later one has a larger
number: a blank line is passed over, but counted. -/
theorem sourceLines_increasing (first : Nat) (raws : List (List Char)) :
    (sourceLines first raws).Pairwise fun a b => a.number < b.number := by
  have numbers : (raws.zipIdx first).Pairwise fun p q => p.2 < q.2 := by
    rw [← List.pairwise_map (f := Prod.snd) (R := (· < ·)), List.zipIdx_map_snd]
    exact List.pairwise_lt_range'
  refine numbers.filterMap _ fun p q smaller a atP b atQ => ?_
  rw [(SourceLine.ofRaw?_eq_some_iff.mp atP).2, (SourceLine.ofRaw?_eq_some_iff.mp atQ).2]
  exact smaller

namespace Assembly

variable [Machine] {r : Registry} {source : List Char} {a : Assembly}

theorem mem_lines_iff (given : ofSource r source = .ok a) {e : EncodedLine} :
    e ∈ a.lines ↔ ∃ n raw w, (splitLines source)[n]? = some raw ∧ instructionText raw ≠ [] ∧
      encodeLine r (instructionText raw) = .ok w ∧ e = ⟨1 + n, instructionText raw, w⟩ := by
  simp only [(ofLines_eq_ok given).1, List.mem_filterMap, mem_sourceLines_iff,
    SourceLine.ofRaw?_eq_some_iff, encoded?_eq_some_iff]
  constructor
  · rintro ⟨_, ⟨n, raw, atRaw, someText, rfl⟩, w, atLine, rfl⟩
    exact ⟨n, raw, w, atRaw, someText, atLine, rfl⟩
  · rintro ⟨n, raw, w, atRaw, someText, atLine, rfl⟩
    exact ⟨_, ⟨n, raw, atRaw, someText, rfl⟩, w, atLine, rfl⟩

theorem mem_diagnostics_iff (given : ofSource r source = .ok a) {d : Diagnostic} :
    d ∈ a.diagnostics ↔
      ∃ n raw e, (splitLines source)[n]? = some raw ∧ instructionText raw ≠ [] ∧
        encodeLine r (instructionText raw) = .error (.reported e) ∧
        d = .ofFinding e.finding (1 + n : Nat) (instructionText raw) (indentWidth raw) := by
  simp only [(ofLines_eq_ok given).2, List.mem_filterMap, mem_sourceLines_iff,
    SourceLine.ofRaw?_eq_some_iff, diagnosed?_eq_some_iff]
  constructor
  · rintro ⟨_, ⟨n, raw, atRaw, someText, rfl⟩, e, atLine, rfl⟩
    exact ⟨n, raw, e, atRaw, someText, atLine, rfl⟩
  · rintro ⟨n, raw, e, atRaw, someText, atLine, rfl⟩
    exact ⟨_, ⟨n, raw, atRaw, someText, rfl⟩, e, atLine, rfl⟩

/-- What an assembly has to hold of a source: for every line that is not blank its
word or its diagnostic, as the text of that line alone gives it, and no more. -/
structure Follows (a : Assembly) (r : Registry) (source : List Char) : Prop where
  words_increase : (a.lines.map (·.number)).Pairwise (· < ·)
  diagnostics_increase : (a.diagnostics.map (·.span.line)).Pairwise (· < ·)
  disjoint : ∀ e ∈ a.lines, ∀ d ∈ a.diagnostics, (e.number : Int) ≠ d.span.line
  complete : ∀ n : Nat,
    ((∃ e ∈ a.lines, e.number = n + 1) ∨ ∃ d ∈ a.diagnostics, d.span.line = n + 1) ↔
      ∃ raw, (splitLines source)[n]? = some raw ∧ instructionText raw ≠ []
  word : ∀ e ∈ a.lines, ∃ n raw, e.number = n + 1 ∧ (splitLines source)[n]? = some raw ∧
    e.text = instructionText raw ∧ encodeLine r (instructionText raw) = .ok e.word
  diagnostic : ∀ d ∈ a.diagnostics, ∃ (n : Nat) (raw : List Char) (e : LineError),
    d.span.line = n + 1 ∧ (splitLines source)[n]? = some raw ∧
    encodeLine r (instructionText raw) = .error (.reported e) ∧
    d.code = e.kind.code ∧ d.message = e.message

theorem words_increase (given : ofSource r source = .ok a) :
    (a.lines.map (·.number)).Pairwise (· < ·) := by
  rw [(ofLines_eq_ok given).1, List.pairwise_map]
  refine (sourceLines_increasing 1 _).filterMap _ fun p q smaller e atP f atQ => ?_
  obtain ⟨_, _, rfl⟩ := encoded?_eq_some_iff.mp atP
  obtain ⟨_, _, rfl⟩ := encoded?_eq_some_iff.mp atQ
  exact smaller

theorem diagnostics_increase (given : ofSource r source = .ok a) :
    (a.diagnostics.map (·.span.line)).Pairwise (· < ·) := by
  rw [(ofLines_eq_ok given).2, List.pairwise_map]
  refine (sourceLines_increasing 1 _).filterMap _ fun p q smaller d atP f atQ => ?_
  obtain ⟨_, _, rfl⟩ := diagnosed?_eq_some_iff.mp atP
  obtain ⟨_, _, rfl⟩ := diagnosed?_eq_some_iff.mp atQ
  rw [line_ofFinding, line_ofFinding]
  exact Int.ofNat_lt.mpr smaller

theorem follows_of_ofSource (given : ofSource r source = .ok a) : a.Follows r source where
  words_increase := words_increase given
  diagnostics_increase := diagnostics_increase given
  disjoint := by
    intro e inLines d inDiagnostics sameNumber
    obtain ⟨n, raw, w, atRaw, _, encoded, rfl⟩ := (mem_lines_iff given).mp inLines
    obtain ⟨m, other, f, atOther, _, failed, rfl⟩ := (mem_diagnostics_iff given).mp inDiagnostics
    rw [line_ofFinding] at sameNumber
    have sameIndex : n = m := by
      have equal : 1 + n = 1 + m := Int.ofNat_inj.mp sameNumber
      omega
    have sameRaw : raw = other := by
      rw [sameIndex, atOther] at atRaw
      exact (Option.some.inj atRaw).symm
    rw [sameRaw, failed] at encoded
    cases encoded
  complete := by
    intro n
    constructor
    · rintro (⟨e, member, number⟩ | ⟨d, member, number⟩)
      · obtain ⟨m, raw, w, atRaw, someText, _, rfl⟩ := (mem_lines_iff given).mp member
        have sameIndex : m = n := by
          have equal : 1 + m = n + 1 := number
          omega
        exact ⟨raw, sameIndex ▸ atRaw, someText⟩
      · obtain ⟨m, raw, e, atRaw, someText, _, rfl⟩ := (mem_diagnostics_iff given).mp member
        rw [line_ofFinding] at number
        have sameIndex : m = n := by omega
        exact ⟨raw, sameIndex ▸ atRaw, someText⟩
    · rintro ⟨raw, atRaw, someText⟩
      rcases ofSource_line given atRaw someText with ⟨w, _, member⟩ | ⟨e, _, member⟩
      · exact Or.inl ⟨_, member, Nat.add_comm 1 n⟩
      · refine Or.inr ⟨_, member, ?_⟩
        rw [line_ofFinding]
        omega
  word := by
    intro e member
    obtain ⟨n, raw, w, atRaw, _, encoded, rfl⟩ := (mem_lines_iff given).mp member
    exact ⟨n, raw, Nat.add_comm 1 n, atRaw, rfl, encoded⟩
  diagnostic := by
    intro d member
    obtain ⟨n, raw, e, atRaw, _, failed, rfl⟩ := (mem_diagnostics_iff given).mp member
    refine ⟨n, raw, e, ?_, atRaw, failed, rfl, rfl⟩
    rw [line_ofFinding]
    omega

theorem ofSource_append_eq_error_iff {s : List Char} (ended : s = [] ∨ s.getLast? = some '\n')
    (t : List Char) :
    (∃ stop, ofSource r (s ++ t) = .error stop) ↔
      (∃ stop, ofSource r s = .error stop) ∨ ∃ stop, ofSource r t = .error stop := by
  simp only [ofSource_eq_error_iff, splitLines_append ended, List.mem_append, or_and_right,
    exists_or]

/-- The numbers of the lines that are put after a source start where those of the
source end. -/
theorem ofSource_append_eq_ok {s t : List Char} {a b whole : Assembly}
    (ended : s = [] ∨ s.getLast? = some '\n') (atStart : ofSource r s = .ok a)
    (atEnd : ofSource r t = .ok b) (given : ofSource r (s ++ t) = .ok whole) :
    whole.lines = a.lines ++ b.lines.map (.later (splitLines s).length) ∧
      whole.diagnostics = a.diagnostics ++ b.diagnostics.map (.later (splitLines s).length) := by
  have lines : sourceLines 1 (splitLines (s ++ t)) = sourceLines 1 (splitLines s) ++
      (sourceLines 1 (splitLines t)).map (.later (splitLines s).length) := by
    rw [splitLines_append ended, sourceLines_append, sourceLines_later]
  rw [(ofLines_eq_ok given).1, (ofLines_eq_ok given).2, (ofLines_eq_ok atStart).1,
    (ofLines_eq_ok atStart).2, (ofLines_eq_ok atEnd).1, (ofLines_eq_ok atEnd).2, lines]
  simp only [List.filterMap_append, List.filterMap_map, List.map_filterMap]
  exact ⟨congrArg _ (List.filterMap_congr fun line _ => encoded?_later r _ line),
    congrArg _ (List.filterMap_congr fun line _ => diagnosed?_later r _ line)⟩

end Assembly

/-- Whatever a source gives, it gives line by line: no line is lost, doubled, moved
or changed by another one. So a source may be cut after any line feed. -/
theorem ofSource_line_by_line [Machine] (r : Registry) :
    (∀ source a, Assembly.ofSource r source = .ok a → a.Follows r source) ∧
    ∀ s t : List Char, s = [] ∨ s.getLast? = some '\n' →
      ((∃ stop, Assembly.ofSource r (s ++ t) = .error stop) ↔
        (∃ stop, Assembly.ofSource r s = .error stop) ∨
          ∃ stop, Assembly.ofSource r t = .error stop) ∧
      ∀ a b, Assembly.ofSource r s = .ok a → Assembly.ofSource r t = .ok b →
        ∃ whole, Assembly.ofSource r (s ++ t) = .ok whole ∧
          whole.lines = a.lines ++ b.lines.map (.later (splitLines s).length) ∧
          whole.diagnostics =
            a.diagnostics ++ b.diagnostics.map (.later (splitLines s).length) := by
  refine ⟨fun source a given => Assembly.follows_of_ofSource given, fun s t ended => ?_⟩
  refine ⟨Assembly.ofSource_append_eq_error_iff ended t, fun a b atStart atEnd => ?_⟩
  cases given : Assembly.ofSource r (s ++ t) with
  | ok whole =>
    exact ⟨whole, rfl, Assembly.ofSource_append_eq_ok ended atStart atEnd given⟩
  | error stop =>
    rcases (Assembly.ofSource_append_eq_error_iff ended t).mp ⟨stop, given⟩ with
      ⟨_, stopped⟩ | ⟨_, stopped⟩
    · rw [atStart] at stopped
      cases stopped
    · rw [atEnd] at stopped
      cases stopped

/-- A word, an empty line after a break of two characters, and an unknown mnemonic. -/
def faultyProgram : List Char :=
  "LDR 1,2,10\r\n\n XYZ ;x\n".toList

theorem ofSource_line_by_line_faultyProgram :
    ∃ a b whole, Assembly.ofSource .standard faultyProgram = .ok a ∧
      Assembly.ofSource .standard "IN 1,3".toList = .ok b ∧
      (faultyProgram = [] ∨ faultyProgram.getLast? = some '\n') ∧
      Assembly.ofSource .standard (faultyProgram ++ "IN 1,3".toList) = .ok whole ∧
      whole.Follows .standard (faultyProgram ++ "IN 1,3".toList) ∧
      whole.lines = a.lines ++ b.lines.map (.later 3) ∧
      whole.diagnostics = a.diagnostics ++ b.diagnostics.map (.later 3) ∧
      whole.lines.map (·.number) = [1, 4] ∧ whole.diagnostics.map (·.span.line) = [3] := by
  obtain ⟨a, atStart, words, faults⟩ : ∃ a, Assembly.ofSource .standard faultyProgram = .ok a ∧
      a.lines.map (·.number) = [1] ∧ a.diagnostics.map (·.span.line) = [3] := ⟨_, rfl, rfl, rfl⟩
  obtain ⟨b, atEnd, word, clean⟩ : ∃ b, Assembly.ofSource .standard "IN 1,3".toList = .ok b ∧
      b.lines.map (·.number) = [1] ∧ b.diagnostics = [] := ⟨_, rfl, rfl, rfl⟩
  have ended : faultyProgram = [] ∨ faultyProgram.getLast? = some '\n' := Or.inr (by decide)
  obtain ⟨lineByLine, cut⟩ := ofSource_line_by_line .standard
  obtain ⟨whole, given, lines, diagnostics⟩ := (cut _ _ ended).2 a b atStart atEnd
  refine ⟨a, b, whole, atStart, atEnd, ended, given, lineByLine _ whole given, lines, diagnostics,
    ?_, ?_⟩
  · have moved : (b.lines.map (EncodedLine.later 3)).map (·.number) =
        (b.lines.map (·.number)).map (· + 3) := by
      rw [List.map_map, List.map_map]
      rfl
    have three : (splitLines faultyProgram).length = 3 := rfl
    rw [lines, three, List.map_append, words, moved, word]
    rfl
  · rw [diagnostics, clean, List.map_nil, List.append_nil, faults]

end WordAssembler
