import WordAssembler.Diagnostic
import WordAssembler.Instruction

namespace WordAssembler

/-- A line without its comment, which starts at a semicolon, and without the
blanks at its end. -/
def withoutComment (raw : List Char) : List Char :=
  trimEnd (raw.takeWhile (· ≠ ';'))

/-- A line of a source that holds an instruction: its number, counted from one,
the width of the blanks before the instruction, and its text. -/
structure SourceLine where
  number : Nat
  indent : Nat
  text : List Char
  deriving DecidableEq, Repr

def SourceLine.ofRaw? (number : Nat) (raw : List Char) : Option SourceLine :=
  let kept := withoutComment raw
  let text := trimStart kept
  if text = [] then none else some ⟨number, kept.length - text.length, text⟩

/-- The instructions in lines that are numbered from `first` on. -/
def sourceLines (first : Nat) (raws : List (List Char)) : List SourceLine :=
  (raws.zipIdx first).filterMap fun (raw, number) => SourceLine.ofRaw? number raw

structure EncodedLine where
  number : Nat
  text : List Char
  word : Word
  deriving DecidableEq, Repr

/-- What a source gives: words, errors and log records, each in the order of
the lines. -/
structure Assembly where
  lines : List EncodedLine
  diagnostics : List Diagnostic
  log : List LogRecord
  deriving DecidableEq, Repr

/-- Work that was ended by a numeral of too many digits, and the log up to
there. -/
structure Interruption where
  digits : Nat
  log : List LogRecord
  deriving DecidableEq, Repr

namespace Assembly

variable [Machine]

def words (a : Assembly) : List Word :=
  a.lines.map (·.word)

def hasErrors (a : Assembly) : Bool :=
  !a.diagnostics.isEmpty

def empty : Assembly := ⟨[], [], []⟩

def append (a b : Assembly) : Assembly :=
  ⟨a.lines ++ b.lines, a.diagnostics ++ b.diagnostics, a.log ++ b.log⟩

instance : Append Assembly := ⟨append⟩

def logger : String := "isa18.assembler"

/-- What a single line gives: its word, or the diagnostic of its error. -/
def ofLine (r : Registry) (line : SourceLine) : Except Nat Assembly :=
  match Instruction.read r line.text with
  | .ok i => .ok ⟨[⟨line.number, line.text, i.word⟩], [], [i.record]⟩
  | .error (.reported e) =>
    let record : LogRecord := ⟨.warning, logger,
      s!"Line {line.number}: illegal operation {quoted line.text}: {e.message}"⟩
    .ok ⟨[], [.ofFinding e.finding line.number line.text line.indent], [record]⟩
  | .error (.tooManyDigits count) => .error count

def ofLines (r : Registry) : List SourceLine → Except Interruption Assembly
  | [] => .ok empty
  | line :: rest =>
    match ofLine r line with
    | .error count => .error ⟨count, []⟩
    | .ok first =>
      match ofLines r rest with
      | .ok others => .ok (first ++ others)
      | .error stop => .error { stop with log := first.log ++ stop.log }

end Assembly

/-- Assembles a source. A faulty line gives a diagnostic, and the lines after it
are still encoded; blank lines and comments give nothing. -/
def Assembly.ofSource [Machine] (r : Registry) (source : List Char) :
    Except Interruption Assembly :=
  Assembly.ofLines r (sourceLines 1 (splitLines source))

end WordAssembler
