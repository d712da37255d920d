import WordAssembler.File.Status

namespace WordAssembler

/-- Files and directories below the current directory, each with the names that
lead to it, and home directories elsewhere. A file without content is a
directory; the directories on the way to another are there without being
listed. -/
structure FileTree where
  nodes : List (List (List Char) × Option (List UInt8))
  homes : List (List Char × Path)

namespace FileTree

/-- What is found where names lead from the current directory. -/
def statusAt (t : FileTree) (names : List (List Char)) : FileStatus :=
  match t.nodes.lookup names with
  | some (some bytes) => .file (.ok bytes)
  | some none => .directory
  | none =>
    if names = [] ∨ t.nodes.any fun (place, _) => names.isPrefixOf place then .directory
    else .unreachable .absent

def encodedSize (s : List Char) : Nat :=
  s.foldl (fun size c => size + c.utf8Size) 0

/-- Follows names from a directory on. Double dots lead back to the directory
above; above the current directory nothing is known but more directories. -/
def follow (t : FileTree) (place : List (List Char)) : List (List Char) → FileStatus
  | [] => t.statusAt place
  | name :: rest =>
    match t.statusAt place with
    | .other _ =>
      if name = ['.', '.'] then
        if place = [] then
          if rest.all (· == ['.', '.']) then .directory else .unreachable .absent
        else t.follow place.dropLast rest
      else if 255 < encodedSize name then .unreachable .tooLong
      else t.follow (place ++ [name]) rest
    | .file _ => .unreachable .notADirectory
    | status => status

/-- What is found at a path. Outside the tree there are only directories above
the current one, and homes. -/
def status (t : FileTree) (p : Path) : FileStatus :=
  if p.text.contains '\x00' then .nullCharacter
  else if 4096 ≤ encodedSize p.text then .unreachable .tooLong
  else if 0 < p.slashes then
    if p.names.all (· == ['.', '.']) ∨ t.homes.any (·.2 == p) then .directory
    else .unreachable .absent
  else t.follow [] p.names

def files (t : FileTree) : Files :=
  ⟨t.status, fun user => t.homes.lookup user⟩

end FileTree

end WordAssembler
