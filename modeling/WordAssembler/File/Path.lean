import WordAssembler.Fault
import WordAssembler.Text.Split

namespace WordAssembler

/-- A path to a file: how many slashes it starts with, and its names. -/
structure Path where
  slashes : Nat
  names : List (List Char)
  deriving DecidableEq, Repr

namespace Path

/-- The path that a text writes. Empty names and single dots lead nowhere and
are dropped; double dots stay. Two slashes at the start are kept apart from
one, and more than two count as one. -/
def ofText (s : List Char) : Path :=
  let leading := (s.takeWhile (· == '/')).length
  { slashes := if leading ≤ 2 then leading else 1
    names := (separated '/' s).filter fun name => name ≠ [] ∧ name ≠ ['.'] }

/-- The text of a path. The one without names is a dot, or only slashes. -/
def text (p : Path) : List Char :=
  if p.slashes = 0 ∧ p.names = [] then ['.']
  else List.replicate p.slashes '/' ++ List.intercalate ['/'] p.names

end Path

/-- Why a path that starts in a home directory leads nowhere: no user has the
name, or it holds a null character. -/
inductive HomeFault
  | unknownUser
  | nullCharacter
  deriving DecidableEq, Repr

def HomeFault.message : HomeFault → String
  | .unknownUser => "Could not determine home directory."
  | .nullCharacter => "embedded null byte"

def HomeFault.faultClass : HomeFault → FaultClass
  | .unknownUser => .runtime
  | .nullCharacter => .value

/-- The home directories of users. The user without a name is the one who runs
the program. -/
abbrev Homes := List Char → Option Path

/-- The path of a home directory, which without a name is the topmost one. -/
def homePath (s : List Char) : Path :=
  if s.all (· == '/') then ⟨1, []⟩ else .ofText s

/-- The home directory of a user in a table of accounts. Each row is one
account; of its fields, the first is the name and the sixth the directory. -/
def homeIn (accounts : List Char) : Homes := fun user =>
  ((separated '\n' accounts).map (separated ':')).findSome? fun fields =>
    if fields.head? = some user then fields[5]?.map homePath else none

/-- The path in which a home directory takes the place of a first name that
asks for it: a tilde and the name of a user. -/
def Path.fromHome (homes : Homes) (p : Path) : Except HomeFault Path :=
  match p.slashes, p.names with
  | 0, ('~' :: user) :: rest =>
    if user.contains '\x00' then .error .nullCharacter
    else
      match homes user with
      | some home => .ok { home with names := home.names ++ rest }
      | none => .error .unknownUser
  | _, _ => .ok p

end WordAssembler
