import WordAssembler.Run

namespace WordAssembler

inductive Flag
  | help
  | listing
  | verbose
  deriving DecidableEq, Repr

inductive Setting
  | registry
  | form
  deriving DecidableEq, Repr

inductive Switch
  | flag (flag : Flag)
  | setting (setting : Setting)
  deriving DecidableEq, Repr

/-- The option of a single letter. None of them takes a value. -/
def Flag.ofLetter? : Char → Option Flag
  | 'h' => some .help
  | 'v' => some .verbose
  | _ => none

namespace Switch

/-- The long options in the order of the help text. -/
def long : List (String × Switch) :=
  [("--help", .flag .help), ("--registry", .setting .registry), ("--format", .setting .form),
    ("--listing", .flag .listing), ("--verbose", .flag .verbose)]

def name : Switch → String
  | .flag .help => "-h/--help"
  | .flag .listing => "--listing"
  | .flag .verbose => "-v/--verbose"
  | .setting .registry => "--registry"
  | .setting .form => "--format"

end Switch

inductive UsageFault
  | ambiguous (argument : List Char) (candidates : List String)
  | unexpectedValue (flag : Flag) (value : List Char)
  | missingValue (setting : Setting)
  | invalidForm (value : List Char)
  | missingPath
  | unrecognized (arguments : List (List Char))
  deriving DecidableEq, Repr

def forms : List String :=
  ["octal", "binary"]

def UsageFault.message : UsageFault → String
  | .ambiguous argument candidates =>
    s!"ambiguous option: {String.ofList argument} could match " ++
      String.intercalate ", " candidates
  | .unexpectedValue flag value =>
    s!"argument {(Switch.flag flag).name}: ignored explicit argument {quoted value}"
  | .missingValue setting => s!"argument {(Switch.setting setting).name}: expected one argument"
  | .invalidForm value =>
    let choices := forms.map fun form => quoted form.toList
    s!"argument {(Switch.setting .form).name}: invalid choice: {quoted value} (choose from " ++
      String.intercalate ", " choices ++ ")"
  | .missingPath => "the following arguments are required: PATH"
  | .unrecognized arguments =>
    "unrecognized arguments: " ++ String.intercalate " " (arguments.map String.ofList)

/-- The mark after which all arguments are plain. -/
def mark : List Char := ['-', '-']

/-- An argument by its form: a plain one, the mark after which all are plain,
a run of letters after a single dash, a long option with the value that is
joined to it, if any, or something that looks like an option and is none. -/
inductive Argument
  | plain (text : List Char)
  | separator
  | letters (first : Flag) (rest : List Char)
  | flag (flag : Flag) (value : Option (List Char))
  | setting (setting : Setting) (value : Option (List Char))
  | unknown (text : List Char)
  deriving DecidableEq, Repr

/-- Whether a text is a negative decimal number, perhaps before a line feed. -/
def isNegativeNumber (s : List Char) : Bool :=
  let s := if s.getLast? = some '\n' then s.dropLast else s
  match s with
  | '-' :: rest =>
    let isDigit := fun c => (digitValue? c).isSome
    match rest.dropWhile isDigit with
    | [] => rest ≠ []
    | '.' :: fraction => fraction ≠ [] && fraction.all isDigit
    | _ => false
  | _ => false

namespace Argument

/-- An argument that starts with a dash and names no option. A negative number
and a text with a space are taken as plain. -/
def unnamed (s : List Char) : Argument :=
  if isNegativeNumber s || s.contains ' ' then .plain s else .unknown s

/-- The form of an argument before the mark. A long option may be cut short as
long as one option only starts so. What is joined to a letter is a run of more
letters, and the letter stands alone if nothing is. -/
def classify (s : List Char) : Except UsageFault Argument :=
  match s with
  | '-' :: '-' :: _ =>
    let spelling := s.takeWhile (· ≠ '=')
    let value := if spelling = s then none else some (s.drop (spelling.length + 1))
    match Switch.long.filter fun (full, _) => spelling.isPrefixOf full.toList with
    | [] => .ok (unnamed s)
    | [(_, .flag alone)] => .ok (.flag alone value)
    | [(_, .setting valued)] => .ok (.setting valued value)
    | candidates => .error (.ambiguous s (candidates.map (·.1)))
  | '-' :: letter :: rest =>
    match Flag.ofLetter? letter, rest with
    | none, _ => .ok (unnamed s)
    | some first, ['='] => .ok (.flag first (some []))
    | some first, '=' :: joined => .ok (.letters first joined)
    | some first, joined => .ok (.letters first joined)
  | _ => .ok (.plain s)

def classifyAll : List (List Char) → Except UsageFault (List Argument)
  | [] => .ok []
  | s :: rest =>
    if s = mark then .ok (.separator :: rest.map .plain)
    else do return (← classify s) :: (← classifyAll rest)

end Argument

/-- What a command line asks for, as far as it has been read. -/
structure Settings where
  path : Option (List Char)
  registry : RegistrySource
  form : List Char
  listing : Bool
  verbosity : Nat
  leftOver : List (List Char)
  deriving DecidableEq, Repr

inductive EarlyEnd
  | help
  | misuse (fault : UsageFault)
  deriving DecidableEq, Repr

namespace Settings

def initial : Settings :=
  ⟨none, .standard, "octal".toList, false, 0, []⟩

def leave (s : Settings) (text : List Char) : Settings :=
  { s with leftOver := s.leftOver ++ [text] }

def obey (s : Settings) : Flag → Except EarlyEnd Settings
  | .help => .error .help
  | .listing => .ok { s with listing := true }
  | .verbose => .ok { s with verbosity := s.verbosity + 1 }

/-- Obeys an option with its value. The last one of a kind counts. The mark is
dropped where it is a value: no form and no registry is named then. -/
def assign (s : Settings) (value : List Char) : Setting → Except EarlyEnd Settings
  | .registry =>
    let source := if value = mark then .nameless else .file (Path.ofText value).text
    .ok { s with registry := source }
  | .form =>
    if value = mark then .ok { s with form := [] }
    else if value ∈ forms.map String.toList then .ok { s with form := value }
    else .error (.misuse (.invalidForm value))

/-- The options in a run of letters. All of the run is refused from the first
letter on that is no option. -/
def letterRun (flag : Flag) : List Char → Except UsageFault (List Flag)
  | [] => .ok [flag]
  | letter :: rest =>
    match Flag.ofLetter? letter with
    | some next => do return flag :: (← letterRun next rest)
    | none => .error (.unexpectedValue flag (letter :: rest))

def obeyLetters (s : Settings) (first : Flag) (rest : List Char) : Except EarlyEnd Settings := do
  let flags ← (letterRun first rest).mapError .misuse
  flags.foldlM obey s

/-- Reads arguments in order. The first plain one is the path, and a mark next
to it goes with it. An option takes the next argument as its value if none is
joined to it. Everything else is left over. -/
def read (s : Settings) : List Argument → Except EarlyEnd Settings
  | [] => .ok s
  | .plain text :: rest =>
    match s.path, rest with
    | none, .separator :: rest => read { s with path := some text } rest
    | none, rest => read { s with path := some text } rest
    | some _, rest => read (s.leave text) rest
  | .separator :: rest =>
    match s.path, rest with
    | none, .plain text :: rest => read { s with path := some text } rest
    | _, rest => read (s.leave mark) rest
  | .letters first letters :: rest => do read (← s.obeyLetters first letters) rest
  | .flag flag none :: rest => do read (← s.obey flag) rest
  | .flag flag (some value) :: _ => .error (.misuse (.unexpectedValue flag value))
  | .setting setting (some value) :: rest => do read (← s.assign value setting) rest
  | .setting setting none :: rest =>
    match rest with
    | .plain value :: rest => do read (← s.assign value setting) rest
    | _ => .error (.misuse (.missingValue setting))
  | .unknown text :: rest => read (s.leave text) rest

def request (s : Settings) : Except UsageFault (Request × Nat) :=
  match s.path with
  | none => .error .missingPath
  | some path =>
    if s.leftOver ≠ [] then .error (.unrecognized s.leftOver)
    else
      .ok (⟨.ofText path, s.registry, ⟨String.ofList s.form, s.listing⟩⟩, s.verbosity)

end Settings

/-- What a command line asks for: a request, and how much of the log is to be
shown. -/
def readArguments (arguments : List (List Char)) : Except EarlyEnd (Request × Nat) := do
  let forms ← (Argument.classifyAll arguments).mapError .misuse
  let settings ← Settings.initial.read forms
  settings.request.mapError .misuse

def usage : String :=
  "usage: isa18 [-h] [--registry JSON] [--format \x7boctal,binary\x7d] [--listing] [-v]
             PATH
"

def helpText : String :=
  usage ++ "
18-bit instruction word encoder

positional arguments:
  PATH                  path to an assembly source file, one instruction per
                        line

options:
  -h, --help            show this help message and exit
  --registry JSON       load mnemonic formats and opcodes from a JSON file
  --format \x7boctal,binary\x7d
                        how to print encoded words (default: octal)
  --listing             print each word next to its source line
  -v, --verbose         log rejected lines (-v) or every decoded field (-vv)

Examples:
  isa18 program.asm
  isa18 --format binary --listing program.asm
  isa18 --registry opcodes.json program.asm
"

/-- The least important level that is shown: errors only, and with the first
and the second mention of the option more of the log. -/
def shownLevel : Nat → Level
  | 0 => .error
  | 1 => .warning
  | _ => .debug

/-- Obeys a command line. The shown part of the log comes before the messages
of the run itself. -/
def runCommandLine [Machine] (arguments : List (List Char)) (files : Files) : Outcome :=
  match readArguments arguments with
  | .error .help => ⟨helpText, "", [], .ok 0⟩
  | .error (.misuse fault) => ⟨"", usage ++ s!"isa18: error: {fault.message}\n", [], .ok 2⟩
  | .ok (request, verbosity) =>
    let outcome := request.run files
    { outcome with err := logText (shownLevel verbosity) outcome.log ++ outcome.err }

end WordAssembler
