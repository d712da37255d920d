import WordAssembler.Listing
import WordAssembler.Registry.File

namespace WordAssembler

/-- A fault that no report covers. It ends a run without a status. -/
inductive RunFault
  | tooManyDigits (count : Nat)
  | load (path : Path) (fault : LoadFault)
  | unreachable (path : Path) (fault : SystemFault)
  | home (fault : HomeFault)
  | namelessRegistry

namespace RunFault

def message : RunFault → String
  | .tooManyDigits count => tooManyDigitsMessage count
  | .load path fault => fault.message path
  | .unreachable path fault => (AccessFault.opening fault).message path
  | .home fault => fault.message
  | .namelessRegistry => "expected str, bytes or os.PathLike object, not list"

def faultClass : RunFault → FaultClass
  | .tooManyDigits _ => .value
  | .load _ fault => fault.faultClass
  | .unreachable .. => .system
  | .home fault => fault.faultClass
  | .namelessRegistry => .type

end RunFault

/-- What a run prints, what it logs, and the status with which it ends. -/
structure Outcome where
  out : String
  err : String
  log : List LogRecord
  status : Except RunFault Nat

/-- How words are printed. The form is named by a text: without a listing only
`binary` stands for binary digits, in a listing all but `octal` do. -/
structure Style where
  form : String
  listing : Bool
  deriving DecidableEq, Repr

def Style.standard : Style := ⟨"octal", false⟩

def Style.render (style : Style) (lines : List EncodedLine) : String :=
  if style.listing then listingText (style.form == "octal") lines
  else if style.form = "binary" then binaryText (lines.map (·.word))
  else octalText (lines.map (·.word))

/-- What is printed about an assembly: its report, and the words if there are
no errors. -/
def Assembly.print (a : Assembly) (label : Option String) (style : Style) : String :=
  let head := s!"=== Assembly Result ===\n{Diagnostic.report label a.diagnostics}\n\n"
  if a.hasErrors then head ++ "Build failed due to errors above.\n"
  else head ++ s!"=== Words ===\n{style.render a.lines}\n"

variable [Machine]

def Outcome.ofSource (r : Registry) (label : Option String) (style : Style) (source : List Char) :
    Outcome :=
  match Assembly.ofSource r source with
  | .ok a => ⟨a.print label style, "", a.log, .ok (if a.hasErrors then 1 else 0)⟩
  | .error stop => ⟨"", "", stop.log, .error (.tooManyDigits stop.digits)⟩

/-- Where the registry comes from: it is the standard one, or in a file, which
messages call by the name that it was given, or in a file without any name. -/
inductive RegistrySource
  | standard
  | file (name : List Char)
  | nameless
  deriving DecidableEq, Repr

/-- What a user asks for: a source file, a registry, and the style of the
output. -/
structure Request where
  path : Path
  registry : RegistrySource
  style : Style
  deriving DecidableEq, Repr

/-- The end of a run that could not begin, with a message. -/
def Outcome.refused (message : String) : Outcome :=
  ⟨"", s!"error: {message}\n", [], .ok 1⟩

/-- The end of a run by a fault that no report covers. -/
def Outcome.broken (fault : RunFault) : Outcome :=
  ⟨"", "", [], .error fault⟩

/-- Why there is no registry to assemble with. Unfit values and what the system
denies are reported under the name that the file was given; nothing reports
the other faults. -/
def Outcome.ofLoadFault (name : List Char) (p : Path) (fault : LoadFault) : Outcome :=
  if fault.faultClass.IsValue ∨ fault.faultClass = .system then
    .refused s!"failed to load registry '{String.ofList name}': {fault.message p}"
  else .broken (.load p fault)

/-- The registry of a request, and what is logged about it. -/
def Request.loadRegistry (q : Request) (files : Files) :
    Except Outcome (Registry × List LogRecord) :=
  match q.registry with
  | .standard => .ok (.standard, [])
  | .nameless => .error (.broken .namelessRegistry)
  | .file name =>
    let path := Path.ofText name
    match path.fromHome files.homes with
    | .error .unknownUser => .error (.broken (.home .unknownUser))
    | .error .nullCharacter => .error (.ofLoadFault name path .nullCharacter)
    | .ok p =>
      match Registry.ofFile (files.status p) with
      | .ok r => .ok (r, [r.loadRecord p])
      | .error fault => .error (.ofLoadFault name p fault)

/-- Assembles the file at a path. The source is read before the registry, so
that its faults are reported first. A fault on the way to the file is reported
only if it means that there is none. -/
def Request.runAt (q : Request) (files : Files) (path : Path) : Outcome :=
  let name := String.ofList path.text
  match files.status path with
  | .nullCharacter => .refused s!"file '{name}' not found"
  | .unreachable fault =>
    if fault.MeansAbsent then .refused s!"file '{name}' not found"
    else .broken (.unreachable path fault)
  | .other _ => .refused s!"'{name}' is not a file"
  | .file (.error fault) => .refused s!"failed to read '{name}': {fault.message path}"
  | .file (.ok bytes) =>
    match fileText bytes with
    | .error fault => .refused s!"failed to read '{name}': {fault.message}"
    | .ok source =>
      match q.loadRegistry files with
      | .error outcome => outcome
      | .ok (r, records) =>
        let outcome := Outcome.ofSource r (some name) q.style source
        { outcome with log := records ++ outcome.log }

def Request.run (q : Request) (files : Files) : Outcome :=
  match q.path.fromHome files.homes with
  | .ok path => q.runAt files path
  | .error fault => .broken (.home fault)

/-- A short program with an instruction of every layout. -/
def sampleProgram : String :=
  "
LDR 3,0,31      ; R3 <- c(31)
LDA 1,0,10
AIR 1,5
LDX 1,20
STR 2,1,4,1     ; indirect through X1
MLT 0,2
NOT 2
SRC 3,3,1,1     ; logical shift left by 3
RRC 0,2,0,1
JZ  0,0,12
RFS 7
IN 1,0          ; read keyboard
OUT 1,1         ; write printer
"

def runSample : Outcome :=
  Outcome.ofSource .standard none ⟨"octal", true⟩ sampleProgram.toList

end WordAssembler
