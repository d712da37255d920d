import WordAssembler.CommandLine

namespace WordAssembler

def SystemFault.ofError : IO.Error → SystemFault
  | .alreadyExists _ code words | .interrupted _ code words | .inappropriateType _ code words
  | .invalidArgument _ code words | .noFileOrDirectory _ code words | .noSuchThing _ code words
  | .permissionDenied _ code words | .resourceExhausted _ code words => ⟨code.toNat, words⟩
  | .hardwareFault code words | .illegalOperation code words | .otherError code words
  | .protocolError code words | .resourceBusy code words | .resourceVanished code words
  | .timeExpired code words | .unsatisfiedConstraints code words
  | .unsupportedOperation code words => ⟨code.toNat, words⟩
  | .unexpectedEof | .userError _ => ⟨5, "Input/output error"⟩

def openAt (p : Path) : BaseIO (Except SystemFault IO.FS.Handle) := do
  return (← (IO.FS.Handle.mk (String.ofList p.text) .read).toBaseIO).mapError .ofError

def readContent (p : Path) : BaseIO (Except AccessFault (List UInt8)) := do
  match ← openAt p with
  | .error fault => return .error (.opening fault)
  | .ok handle =>
    match ← handle.readBinToEnd.toBaseIO with
    | .error e => return .error (.reading (.ofError e))
    | .ok bytes => return .ok bytes.toList

/-- Looks at a path. Something that is neither a file nor a directory may keep a
reader waiting, so it is only read if that is asked for. -/
def lookAt (readOther : Bool) (p : Path) : BaseIO FileStatus := do
  if p.text.contains '\x00' then return .nullCharacter
  let entry := IO.FS.DirEntry.mk (String.ofList p.text) ""
  match ← entry.root.metadata.toBaseIO with
  | .error e =>
    -- What cannot be looked at cannot be opened either, and opening it is denied in the words
    -- of the system itself.
    match ← openAt p with
    | .error fault => return .unreachable fault
    | .ok _ => return .unreachable (.ofError e)
  | .ok found =>
    match found.type with
    | .file => return .file (← readContent p)
    | .dir => return .directory
    | _ => return .other (← if readOther then readContent p else pure (.ok []))

/-- The home directories that the system knows of. The one of the user who runs
the program stands in the environment. -/
def knownHomes : BaseIO Homes := do
  let own ← IO.getEnv "HOME"
  let accounts ← (IO.FS.readFile "/etc/passwd").toBaseIO
  return fun user =>
    if user = [] then own.map (homePath ·.toList)
    else accounts.toOption.bind (homeIn ·.toList user)

/-- The files that a request names, looked at once and before the run. The one
of the source comes first: what is no file at its path is not read, even if the
registry has the same path. -/
def namedFiles (q : Request) : BaseIO Files := do
  let homes ← knownHomes
  let look := fun (readOther : Bool) (p : Path) => do
    match p.fromHome homes with
    | .ok place => return [(place, ← lookAt readOther place)]
    | .error _ => return []
  let source ← look false q.path
  let registry ← match q.registry with
    | .file name => look true (.ofText name)
    | _ => pure []
  return ⟨fun p => ((source ++ registry).lookup p).getD (.unreachable .absent), homes⟩

end WordAssembler

/-- Obeys the command line and ends with its status. A fault without a status is
told at the end and counts as a failure. -/
def main (arguments : List String) : IO UInt32 := do
  let arguments := arguments.map String.toList
  let files ← match WordAssembler.readArguments arguments with
    | .ok (request, _) => WordAssembler.namedFiles request
    | .error _ => pure ⟨fun _ => .unreachable .absent, fun _ => none⟩
  let outcome := WordAssembler.runCommandLine arguments files
  IO.print outcome.out
  IO.eprint outcome.err
  match outcome.status with
  | .ok status => return status.toUInt32
  | .error fault =>
    IO.eprintln fault.message
    return 1
