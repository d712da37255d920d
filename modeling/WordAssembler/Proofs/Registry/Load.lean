import WordAssembler.File.Tree
import WordAssembler.Proofs.Registry.Document

namespace WordAssembler

/-- Both files of a request are there and can be read: the source file at `path`
holds a text, and what is called `name`, a file or not, the text of a value. -/
structure Request.Reads [Machine] (q : Request) (files : Files) (path : Path) (source : List Char)
    (name : List Char) (p : Path) (value : Json) : Prop where
  place : q.path.fromHome files.homes = .ok path
  sourceText : ∃ bytes, files.status path = .file (.ok bytes) ∧ fileText bytes = .ok source
  named : q.registry = .file name
  registryPlace : (Path.ofText name).fromHome files.homes = .ok p
  registryText : ∃ bytes text,
    (files.status p = .file (.ok bytes) ∨ files.status p = .other (.ok bytes)) ∧
    fileText bytes = .ok text ∧ Json.read text = .ok value

namespace Request.Reads

variable [Machine] {q : Request} {files : Files} {path p : Path} {source name : List Char}
  {value : Json}

theorem ofFile (reads : q.Reads files path source name p value) :
    Registry.ofFile (files.status p) = (Registry.ofJson value).mapError .document := by
  obtain ⟨bytes, text, atPath, decoded, given⟩ := reads.registryText
  have whole : Registry.ofText text = (Registry.ofJson value).mapError .document := by
    rw [Registry.ofText, given]
  rw [← whole]
  rcases atPath with isFile | isOther
  · rw [isFile]
    simp only [Registry.ofFile, Except.mapError, decoded, bind, Except.bind]
  · rw [isOther]
    simp only [Registry.ofFile, Except.mapError, decoded, bind, Except.bind]

end Request.Reads

end WordAssembler
