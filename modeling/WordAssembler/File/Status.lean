import WordAssembler.File.Path
import WordAssembler.Text.Quoted

namespace WordAssembler

/-- What the system answers where it denies something: a number and words. -/
structure SystemFault where
  number : Nat
  words : String
  deriving DecidableEq, Repr

namespace SystemFault

def absent : SystemFault := ⟨2, "No such file or directory"⟩

def notADirectory : SystemFault := ⟨20, "Not a directory"⟩

def isADirectory : SystemFault := ⟨21, "Is a directory"⟩

def tooLong : SystemFault := ⟨36, "File name too long"⟩

def message (f : SystemFault) : String :=
  s!"[Errno {f.number}] {f.words}"

/-- Whether a fault on the way to a file only means that there is none: a name
is absent or no directory, nothing is open, or links lead in a circle. -/
def MeansAbsent (f : SystemFault) : Prop :=
  f.number ∈ [2, 20, 9, 40]

instance (f : SystemFault) : Decidable f.MeansAbsent :=
  inferInstanceAs (Decidable (_ ∈ _))

end SystemFault

/-- Why the content of a file is not had: the file cannot be opened, or it is
open and cannot be read. -/
inductive AccessFault
  | opening (fault : SystemFault)
  | reading (fault : SystemFault)
  deriving DecidableEq, Repr

/-- Only a fault in opening names the path. -/
def AccessFault.message (p : Path) : AccessFault → String
  | .opening fault => s!"{fault.message}: {quoted p.text}"
  | .reading fault => fault.message

/-- What is found at a path: nothing that can be looked at, either because the
path holds a null character or by a fault on the way, or else a file or
something other than a file. Either may have content that is denied. -/
inductive FileStatus
  | nullCharacter
  | unreachable (fault : SystemFault)
  | file (content : Except AccessFault (List UInt8))
  | other (content : Except AccessFault (List UInt8))

def FileStatus.directory : FileStatus :=
  .other (.error (.opening .isADirectory))

/-- What a program can see of the files around it: what is at a path, and which
directories are homes. -/
structure Files where
  status : Path → FileStatus
  homes : Homes

end WordAssembler
