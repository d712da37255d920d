import WordAssembler.LineError
import WordAssembler.Text.Numeral

namespace WordAssembler

/-- A stretch of a numbered line, by columns counted from one. -/
structure Span where
  line : Int
  start : Int
  stop : Int
  deriving DecidableEq, Repr

def Span.text (s : Span) : String :=
  s!"{s.line}:{s.start}-{s.stop}"

def Span.HasText (s : Span) : Prop :=
  ∀ n ∈ [s.line, s.start, s.stop], Writable n

instance (s : Span) : Decidable s.HasText :=
  inferInstanceAs (Decidable (∀ _ ∈ _, _))

/-- A reported error with the stretch of the source that it is about. -/
structure Diagnostic where
  code : String
  message : String
  span : Span
  deriving DecidableEq, Repr

/-- What a report says about a fault in a line, and the column where it is, if
it is at a single one. -/
structure Finding where
  kind : FaultKind
  message : String
  column : Option Int
  deriving DecidableEq, Repr

def LineError.finding (e : LineError) : Finding :=
  ⟨e.kind, e.message, e.column⟩

namespace Diagnostic

/-- The diagnostic of a finding in a line, whose text starts after an indent.
A finding with a column points at it, another at the whole text. -/
def ofFinding (f : Finding) (line : Int) (text : List Char) (indent : Int) : Diagnostic :=
  let span : Span :=
    match f.column with
    | some column => ⟨line, indent + column + 1, indent + column + 2⟩
    | none => ⟨line, indent + 1, indent + text.length + 1⟩
  ⟨f.kind.code, f.message, span⟩

/-- A diagnostic in words; with a label, the place is in the text so called. -/
def text (label : Option String) (d : Diagnostic) : String :=
  let place := match label with
    | some name => s!"{name}:{d.span.text}"
    | none => d.span.text
  s!"[{d.code}] error: {d.message} at {place}"

/-- All diagnostics of a source, under a line with their number. -/
def report (label : Option String) : List Diagnostic → String
  | [] => "No issues found."
  | ds => String.intercalate "\n" (s!"=== {ds.length} Error(s) ===" :: ds.map (text label))

/-- A diagnostic in words, unless a number of its place is too long for that. -/
def text? (label : Option String) (d : Diagnostic) : Option String :=
  if d.span.HasText then some (text label d) else none

/-- All diagnostics of a source in words, unless that is denied to one of them. -/
def report? (label : Option String) (ds : List Diagnostic) : Option String :=
  if ∀ d ∈ ds, d.span.HasText then some (report label ds) else none

end Diagnostic

end WordAssembler
