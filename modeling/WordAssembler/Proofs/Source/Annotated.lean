import WordAssembler.Proofs.Assembly.Lines
import WordAssembler.Proofs.Assembly.Numbering
import WordAssembler.Proofs.Text.Line

namespace WordAssembler

/-- A line with blanks around it and a comment after it, none of which ends it.
The line itself may be blank or hold a comment. -/
structure AnnotatedLine where
  indent : List Char
  line : List Char
  trailing : List Char
  comment : List Char
  indent_blank : ∀ c ∈ indent, isBlank c ∧ isLineBreak c = false
  line_inside : ∀ c ∈ line, isLineBreak c = false
  trailing_blank : ∀ c ∈ trailing, isBlank c ∧ isLineBreak c = false
  comment_inside : ∀ c ∈ comment, isLineBreak c = false

def AnnotatedLine.text (l : AnnotatedLine) : List Char :=
  l.indent ++ (l.line ++ (l.trailing ++ ';' :: l.comment))

/-- The width by which the text of a numbered line was moved. -/
def indentAt (lines : List AnnotatedLine) (number : Nat) : Nat :=
  (lines[number - 1]?.map (·.indent.length)).getD 0

def SourceLine.indented (width : Nat → Nat) (line : SourceLine) : SourceLine :=
  { line with indent := width line.number + line.indent }

def Diagnostic.indented (width : Nat) (d : Diagnostic) : Diagnostic :=
  { d with span := ⟨d.span.line, d.span.start + width, d.span.stop + width⟩ }

/-- The same assembly with the diagnostics of each line moved to the right. -/
def Assembly.indented (width : Nat → Nat) (a : Assembly) : Assembly :=
  { a with diagnostics := a.diagnostics.map fun d => d.indented (width d.span.line.toNat) }

namespace AnnotatedLine

variable (l : AnnotatedLine)

theorem not_isLineBreak_of_mem_text : ∀ c ∈ l.text, isLineBreak c = false := by
  intro c member
  simp only [text, List.mem_append, List.mem_cons] at member
  rcases member with inIndent | inLine | inTrailing | rfl | inComment
  · exact (l.indent_blank c inIndent).2
  · exact l.line_inside c inLine
  · exact (l.trailing_blank c inTrailing).2
  · rfl
  · exact l.comment_inside c inComment

theorem ne_semicolon_of_isBlank {c : Char} (blank : isBlank c) : decide (c ≠ ';') = true := by
  refine decide_eq_true ?_
  rintro rfl
  cases blank

theorem withoutComment_text :
    withoutComment l.text = trimEnd (l.indent ++ l.line.takeWhile (· ≠ ';')) := by
  have indent : ∀ c ∈ l.indent, decide (c ≠ ';') = true := fun c member =>
    ne_semicolon_of_isBlank (l.indent_blank c member).1
  have trailing : ∀ c ∈ l.trailing, decide (c ≠ ';') = true := fun c member =>
    ne_semicolon_of_isBlank (l.trailing_blank c member).1
  rw [withoutComment, text, List.takeWhile_append_of_pos indent, List.takeWhile_append]
  -- Either no comment starts in the line, or the first one takes all that follows.
  split
  · rename_i whole
    have same : l.line.takeWhile (· ≠ ';') = l.line :=
      (List.takeWhile_prefix _).eq_of_length whole
    have none : (';' :: l.comment).takeWhile (· ≠ ';') = [] := rfl
    rw [List.takeWhile_append_of_pos trailing, none, List.append_nil, same, ← List.append_assoc,
      trimEnd_append_blanks fun c member => (l.trailing_blank c member).1]
  · rfl

theorem instructionText_text : instructionText l.text = instructionText l.line := by
  have blank : ∀ c ∈ l.indent, isBlank c := fun c member => (l.indent_blank c member).1
  rw [instructionText, instructionText, withoutComment_text, withoutComment]
  by_cases empty : trimEnd (l.line.takeWhile (· ≠ ';')) = []
  · have all : ∀ c ∈ l.indent ++ l.line.takeWhile (· ≠ ';'), isBlank c :=
      List.forall_mem_append.mpr ⟨blank, trimEnd_eq_nil_iff.mp empty⟩
    rw [trimEnd_eq_nil_iff.mpr all, empty]
  · rw [trimEnd_append_of_ne_nil empty, trimStart_blanks_append blank]

theorem indentWidth_text (someText : instructionText l.line ≠ []) :
    indentWidth l.text = l.indent.length + indentWidth l.line := by
  have kept : trimEnd (l.line.takeWhile (· ≠ ';')) ≠ [] := by
    intro empty
    rw [instructionText, withoutComment, empty] at someText
    exact someText rfl
  have shorter : (instructionText l.line).length ≤ (withoutComment l.line).length :=
    (List.dropWhile_sublist isBlank).length_le
  rw [indentWidth, indentWidth, instructionText_text, withoutComment_text,
    trimEnd_append_of_ne_nil kept, List.length_append, ← withoutComment]
  omega

end AnnotatedLine

theorem SourceLine.ofRaw?_text {width : Nat → Nat} {number : Nat} {l : AnnotatedLine}
    (moved : width number = l.indent.length) :
    SourceLine.ofRaw? number l.text =
      (SourceLine.ofRaw? number l.line).map (.indented width) := by
  rw [ofRaw?_eq, ofRaw?_eq, l.instructionText_text]
  by_cases blank : instructionText l.line = []
  · rw [if_pos blank, if_pos blank]
    rfl
  · rw [if_neg blank, if_neg blank, l.indentWidth_text blank, ← moved]
    rfl

theorem indentAt_of_mem_zipIdx {lines : List AnnotatedLine} {p : AnnotatedLine × Nat}
    (member : p ∈ lines.zipIdx 1) : indentAt lines p.2 = p.1.indent.length := by
  have atNumber := (List.mk_mem_zipIdx_iff_le_and_getElem?_sub.mp member).2
  rw [indentAt, atNumber, Option.map_some, Option.getD_some]

/-- Lines that are annotated one by one hold the same instructions, further to the
right. -/
theorem sourceLines_annotated (lines : List AnnotatedLine) :
    sourceLines 1 (lines.map AnnotatedLine.text) =
      (sourceLines 1 (lines.map AnnotatedLine.line)).map (.indented (indentAt lines)) := by
  rw [sourceLines, sourceLines, List.zipIdx_map, List.zipIdx_map, List.filterMap_map,
    List.filterMap_map, List.map_filterMap]
  exact List.filterMap_congr fun p member =>
    SourceLine.ofRaw?_text (indentAt_of_mem_zipIdx member)

/-- An empty line at the end of a text is lost with the line feed before it, but it
holds no instruction. -/
theorem sourceLines_splitLines_intercalate {lines : List (List Char)}
    (inside : ∀ line ∈ lines, ∀ c ∈ line, isLineBreak c = false) (first : Nat) :
    sourceLines first (splitLines (List.intercalate ['\n'] lines)) = sourceLines first lines := by
  obtain ⟨lost, split, empty⟩ := exists_eq_splitLines_append inside
  have nothing : sourceLines (first + (splitLines (List.intercalate ['\n'] lines)).length) lost
      = [] := by
    refine List.filterMap_eq_nil_iff.mpr ?_
    rintro ⟨raw, number⟩ member
    rw [empty raw (List.fst_mem_of_mem_zipIdx member)]
    rfl
  conv_rhs => rw [split, sourceLines_append, nothing, List.append_nil]

namespace Assembly

variable (r : Registry) (width : Nat → Nat)

theorem ofFinding_indented (f : Finding) (line : Nat) (text : List Char) (indent : Nat) :
    Diagnostic.ofFinding f line text (width line + indent : Nat) =
      (Diagnostic.ofFinding f line text indent).indented (width line) := by
  unfold Diagnostic.ofFinding Diagnostic.indented
  cases f.column <;> simp only [Diagnostic.mk.injEq, Span.mk.injEq, true_and] <;> omega

theorem ofLine_indented [Machine] (line : SourceLine) :
    ofLine r (line.indented width) = indented width <$> ofLine r line := by
  unfold ofLine SourceLine.indented
  cases Instruction.read r line.text with
  | ok i => rfl
  | error fault =>
    cases fault with
    | reported e =>
      have number : (Diagnostic.ofFinding e.finding line.number line.text
          line.indent).span.line.toNat = line.number := by
        rw [line_ofFinding, Int.toNat_natCast]
      refine congrArg Except.ok ?_
      simp only [indented, List.map_cons, List.map_nil, number, ofFinding_indented]
    | tooManyDigits count => rfl

theorem indented_append (a b : Assembly) :
    (a ++ b).indented width = a.indented width ++ b.indented width := by
  have diagnostics : ((a ++ b).indented width).diagnostics =
      (a.indented width).diagnostics ++ (b.indented width).diagnostics := List.map_append
  exact congrArg (fun moved => Assembly.mk (a.lines ++ b.lines) moved (a.log ++ b.log)) diagnostics

theorem ofLines_indented [Machine] (lines : List SourceLine) :
    ofLines r (lines.map (.indented width)) = indented width <$> ofLines r lines := by
  induction lines with
  | nil => rfl
  | cons line rest ih =>
    rw [List.map_cons, ofLines, ofLines, ofLine_indented, ih]
    cases ofLine r line with
    | error count => rfl
    | ok first =>
      cases ofLines r rest with
      | error stop => rfl
      | ok others => exact congrArg Except.ok (indented_append width first others).symm

end Assembly

/-- What is put around the lines of a source changes none of its words and moves
each diagnostic by the indent that its line was given. If a source interrupts the
work, it does so in both forms. -/
theorem ofSource_annotated [Machine] (r : Registry) (lines : List AnnotatedLine) :
    Assembly.ofSource r (List.intercalate ['\n'] (lines.map AnnotatedLine.text)) =
      Assembly.indented (indentAt lines) <$>
        Assembly.ofSource r (List.intercalate ['\n'] (lines.map AnnotatedLine.line)) := by
  have plain : ∀ line ∈ lines.map AnnotatedLine.line, ∀ c ∈ line, isLineBreak c = false :=
    List.forall_mem_map.mpr fun l _ => l.line_inside
  have annotated : ∀ line ∈ lines.map AnnotatedLine.text, ∀ c ∈ line, isLineBreak c = false :=
    List.forall_mem_map.mpr fun l _ => l.not_isLineBreak_of_mem_text
  rw [Assembly.ofSource, Assembly.ofSource, sourceLines_splitLines_intercalate annotated,
    sourceLines_splitLines_intercalate plain, sourceLines_annotated, Assembly.ofLines_indented]

-- Deciding a statement about the characters of a list would go through all characters there are.
theorem forall_mem_of_all {s : List Char} {P : Char → Prop} [DecidablePred P]
    (all : s.all fun c => P c) : ∀ c ∈ s, P c :=
  fun c member => of_decide_eq_true (List.all_eq_true.mp all c member)

/-- A faulty line behind a tab and a hard space, and a line that already holds a comment. -/
def indentedProgram : List AnnotatedLine :=
  [⟨['\t', '\u00a0'], "LDR 1,x,3".toList, [' '], "load".toList,
      forall_mem_of_all rfl, forall_mem_of_all rfl, forall_mem_of_all rfl, forall_mem_of_all rfl⟩,
    ⟨[' '], "IN 1,3 ;keyboard".toList, [], "read; then go on".toList,
      forall_mem_of_all rfl, forall_mem_of_all rfl, forall_mem_of_all rfl, forall_mem_of_all rfl⟩]

theorem ofSource_annotated_indentedProgram :
    ∃ a, Assembly.ofSource .standard "LDR 1,x,3\nIN 1,3 ;keyboard".toList = .ok a ∧
      Assembly.ofSource .standard
          "\t\u00a0LDR 1,x,3 ;load\n IN 1,3 ;keyboard;read; then go on".toList =
        .ok (a.indented (indentAt indentedProgram)) ∧
      a.diagnostics.map (·.span) = [⟨1, 7, 8⟩] ∧
      (a.indented (indentAt indentedProgram)).diagnostics.map (·.span) = [⟨1, 9, 10⟩] ∧
      a.lines.map (fun line => (line.number, line.text)) = [(2, "IN 1,3".toList)] := by
  obtain ⟨a, given, before, after, lines⟩ : ∃ a : Assembly,
      Assembly.ofSource .standard "LDR 1,x,3\nIN 1,3 ;keyboard".toList = .ok a ∧
      a.diagnostics.map (·.span) = [⟨1, 7, 8⟩] ∧
      (a.indented (indentAt indentedProgram)).diagnostics.map (·.span) = [⟨1, 9, 10⟩] ∧
      a.lines.map (fun line => (line.number, line.text)) = [(2, "IN 1,3".toList)] :=
    ⟨_, rfl, rfl, rfl, rfl⟩
  have run := ofSource_annotated .standard indentedProgram
  have plain : List.intercalate ['\n'] (indentedProgram.map AnnotatedLine.line) =
      "LDR 1,x,3\nIN 1,3 ;keyboard".toList := by decide +kernel
  have annotated : List.intercalate ['\n'] (indentedProgram.map AnnotatedLine.text) =
      "\t\u00a0LDR 1,x,3 ;load\n IN 1,3 ;keyboard;read; then go on".toList := by decide +kernel
  rw [plain, annotated, given] at run
  exact ⟨a, given, run, before, after, lines⟩

end WordAssembler
