import WordAssembler.File.Tree
import WordAssembler.Proofs.Except
import WordAssembler.Run

namespace WordAssembler

namespace Request

/-- A request leads to a file that can be read, and the file holds a text. A path that does
not start with a tilde leads to itself. -/
structure HasSource (q : Request) (files : Files) (path : Path) (source : List Char) : Prop where
  place : q.path.fromHome files.homes = .ok path
  text : ∃ bytes, files.status path = .file (.ok bytes) ∧ fileText bytes = .ok source

/-- The registry to assemble with: the standard one, or the one that is named, if what has
that name describes one. -/
inductive HasRegistry [Machine] (q : Request) (files : Files) : Registry → Prop
  | standard : q.registry = .standard → HasRegistry q files .standard
  | file {name p r} : q.registry = .file name →
      (Path.ofText name).fromHome files.homes = .ok p →
      Registry.ofFile (files.status p) = .ok r → HasRegistry q files r

/-- What the registry of a name fails by: an unfit value, or something that the system
denies. -/
inductive RegistryFails [Machine] (q : Request) (files : Files) : List Char → String → Prop
  | home {name} : q.registry = .file name →
      (Path.ofText name).fromHome files.homes = .error .nullCharacter →
      RegistryFails q files name HomeFault.nullCharacter.message
  | file {name p fault} : q.registry = .file name →
      (Path.ofText name).fromHome files.homes = .ok p →
      Registry.ofFile (files.status p) = .error fault →
      fault.faultClass.IsValue ∨ fault.faultClass = .system →
      RegistryFails q files name (fault.message p)

/-- The message to a request that cannot begin. The registry is not looked at unless the
source can be read. -/
inductive Refused [Machine] (q : Request) (files : Files) : String → Prop
  | absent {path} : q.path.fromHome files.homes = .ok path →
      (files.status path = .nullCharacter ∨
        ∃ fault, files.status path = .unreachable fault ∧ fault.MeansAbsent) →
      Refused q files s!"file '{String.ofList path.text}' not found"
  | noFile {path content} : q.path.fromHome files.homes = .ok path →
      files.status path = .other content →
      Refused q files s!"'{String.ofList path.text}' is not a file"
  | unreadable {path fault} : q.path.fromHome files.homes = .ok path →
      files.status path = .file (.error fault) →
      Refused q files s!"failed to read '{String.ofList path.text}': {fault.message path}"
  | encoding {path bytes fault} : q.path.fromHome files.homes = .ok path →
      files.status path = .file (.ok bytes) → fileText bytes = .error fault →
      Refused q files s!"failed to read '{String.ofList path.text}': {fault.message}"
  | registry {path source name cause} : q.HasSource files path source →
      q.RegistryFails files name cause →
      Refused q files s!"failed to load registry '{String.ofList name}': {cause}"

theorem HasRegistry.loaded [Machine] {q : Request} {files : Files} {r : Registry}
    (registry : q.HasRegistry files r) : ∃ records, q.loadRegistry files = .ok (r, records) := by
  cases registry with
  | standard isStandard => exact ⟨[], by simp only [loadRegistry, isStandard]⟩
  | @file name p _ named place given =>
    exact ⟨[r.loadRecord p], by simp only [loadRegistry, named, place, given]⟩

theorem RegistryFails.stopped [Machine] {q : Request} {files : Files} {name : List Char}
    {cause : String} (fails : q.RegistryFails files name cause) :
    q.loadRegistry files =
      .error (.refused s!"failed to load registry '{String.ofList name}': {cause}") := by
  cases fails with
  | home named place =>
    simp only [loadRegistry, named, place]
    rfl
  | file named place given told =>
    simp only [loadRegistry, named, place, given, Outcome.ofLoadFault, if_pos told]

/-- Each of these causes stops a run at once, with its message and status one. -/
theorem Refused.run [Machine] {q : Request} {files : Files} {message : String}
    (refused : q.Refused files message) : q.run files = .refused message := by
  cases refused with
  | absent place atPath =>
    rcases atPath with null | ⟨fault, unreachable, absent⟩
    · simp only [Request.run, place, runAt, null]
    · simp only [Request.run, place, runAt, unreachable, if_pos absent]
  | noFile place atPath | unreadable place atPath =>
    simp only [Request.run, place, runAt, atPath]
  | encoding place atPath undecoded =>
    simp only [Request.run, place, runAt, atPath, undecoded]
  | registry hasSource fails =>
    obtain ⟨bytes, atPath, decoded⟩ := hasSource.text
    simp only [Request.run, hasSource.place, runAt, atPath, decoded, fails.stopped]

end Request

namespace Request

variable [Machine]

/-- There is a registry, or its file is told to be at fault, or the run breaks off. -/
theorem loadRegistry_cases (q : Request) (files : Files) :
    (∃ r, q.HasRegistry files r) ∨ (∃ name cause, q.RegistryFails files name cause) ∨
      ∃ unreported, q.loadRegistry files = .error (.broken unreported) := by
  cases named : q.registry with
  | standard => exact Or.inl ⟨_, .standard named⟩
  | nameless =>
    exact Or.inr (Or.inr ⟨.namelessRegistry, by simp only [loadRegistry, named]⟩)
  | file name =>
    cases place : (Path.ofText name).fromHome files.homes with
    | error fault =>
      cases fault with
      | unknownUser =>
        exact Or.inr (Or.inr ⟨.home .unknownUser, by simp only [loadRegistry, named, place]⟩)
      | nullCharacter => exact Or.inr (Or.inl ⟨name, _, .home named place⟩)
    | ok p =>
      cases given : Registry.ofFile (files.status p) with
      | ok r => exact Or.inl ⟨r, .file named place given⟩
      | error fault =>
        by_cases told : fault.faultClass.IsValue ∨ fault.faultClass = .system
        · exact Or.inr (Or.inl ⟨name, _, .file named place given told⟩)
        · refine Or.inr (Or.inr ⟨.load p fault, ?_⟩)
          simp only [loadRegistry, named, place, given, Outcome.ofLoadFault, if_neg told]

variable {q : Request} {files : Files}

/-- With a source and a registry, a run that ends with a status has assembled the one with
the other, and its status tells whether there were faults. -/
theorem HasSource.assembled {path : Path} {source : List Char} {r : Registry} {status : Nat}
    (hasSource : q.HasSource files path source) (registry : q.HasRegistry files r)
    (returned : (q.run files).status = .ok status) :
    ∃ a, Assembly.ofSource r source = .ok a ∧ (status = if a.diagnostics = [] then 0 else 1) ∧
      (q.run files).err = "" ∧
      (q.run files).out = a.print (some (String.ofList path.text)) q.style := by
  obtain ⟨bytes, atPath, decoded⟩ := hasSource.text
  obtain ⟨records, loaded⟩ := registry.loaded
  have run : q.run files =
      let outcome := Outcome.ofSource r (some (String.ofList path.text)) q.style source
      { outcome with log := records ++ outcome.log } := by
    simp only [Request.run, hasSource.place, runAt, atPath, decoded, loaded]
  rw [run] at returned ⊢
  cases given : Assembly.ofSource r source with
  | error stop =>
    simp only [Outcome.ofSource, given] at returned
    cases returned
  | ok a =>
    simp only [Outcome.ofSource, given] at returned ⊢
    obtain rfl := Except.ok.inj returned
    refine ⟨a, rfl, ?_, trivial, rfl⟩
    rw [Assembly.hasErrors]
    cases a.diagnostics <;> rfl

/-- A run has a source and a registry, or is refused, or breaks off. -/
theorem run_cases (q : Request) (files : Files) :
    (∃ path source r, q.HasSource files path source ∧ q.HasRegistry files r) ∨
      (∃ message, q.Refused files message) ∨ ∃ unreported, q.run files = .broken unreported := by
  cases place : q.path.fromHome files.homes with
  | error fault => exact Or.inr (Or.inr ⟨.home fault, by rw [run, place]⟩)
  | ok path =>
    cases atPath : files.status path with
    | nullCharacter => exact Or.inr (Or.inl ⟨_, .absent place (Or.inl atPath)⟩)
    | unreachable fault =>
      by_cases absent : fault.MeansAbsent
      · exact Or.inr (Or.inl ⟨_, .absent place (Or.inr ⟨fault, atPath, absent⟩)⟩)
      · refine Or.inr (Or.inr ⟨.unreachable path fault, ?_⟩)
        simp only [run, place, runAt, atPath, if_neg absent]
    | other content => exact Or.inr (Or.inl ⟨_, .noFile place atPath⟩)
    | file content =>
      cases content with
      | error fault => exact Or.inr (Or.inl ⟨_, .unreadable place atPath⟩)
      | ok bytes =>
        cases decoded : fileText bytes with
        | error fault => exact Or.inr (Or.inl ⟨_, .encoding place atPath decoded⟩)
        | ok source =>
          have hasSource : q.HasSource files path source := ⟨place, bytes, atPath, decoded⟩
          rcases q.loadRegistry_cases files with ⟨r, registry⟩ | ⟨name, cause, fails⟩ |
            ⟨unreported, stopped⟩
          · exact Or.inl ⟨path, source, r, hasSource, registry⟩
          · exact Or.inr (Or.inl ⟨_, .registry hasSource fails⟩)
          · refine Or.inr (Or.inr ⟨unreported, ?_⟩)
            simp only [run, place, runAt, atPath, decoded, stopped]

theorem refused_of_returned {status : Nat} (returned : (q.run files).status = .ok status)
    (neither : ¬ ∃ path source r, q.HasSource files path source ∧ q.HasRegistry files r) :
    status = 1 ∧ ∃ message, q.Refused files message := by
  rcases q.run_cases files with both | ⟨message, refused⟩ | ⟨unreported, run⟩
  · exact absurd both neither
  · rw [refused.run] at returned
    exact ⟨(Except.ok.inj returned).symm, message, refused⟩
  · rw [run] at returned
    cases returned

/-- A run that ends with a status ends with zero if it has assembled a source without
faults, and with one otherwise. -/
theorem zero_or_one {status : Nat} (returned : (q.run files).status = .ok status) :
    (status = 0 ∧ ∃ path source r a, q.HasSource files path source ∧ q.HasRegistry files r ∧
      Assembly.ofSource r source = .ok a ∧ a.diagnostics = []) ∨
    (status = 1 ∧ ¬ ∃ path source r a, q.HasSource files path source ∧ q.HasRegistry files r ∧
      Assembly.ofSource r source = .ok a ∧ a.diagnostics = []) := by
  by_cases both : ∃ path source r, q.HasSource files path source ∧ q.HasRegistry files r
  · obtain ⟨path, source, r, hasSource, registry⟩ := both
    obtain ⟨a, given, told, _⟩ := hasSource.assembled registry returned
    by_cases clean : a.diagnostics = []
    · rw [if_pos clean] at told
      exact Or.inl ⟨told, path, source, r, a, hasSource, registry, given, clean⟩
    · rw [if_neg clean] at told
      refine Or.inr ⟨told, ?_⟩
      -- Any source and registry of the request would give the status, so also these.
      rintro ⟨_, _, _, b, otherSource, otherRegistry, otherGiven, otherClean⟩
      obtain ⟨c, again, toldAgain, _⟩ := otherSource.assembled otherRegistry returned
      obtain rfl : b = c := Except.ok.inj (otherGiven.symm.trans again)
      rw [if_pos otherClean] at toldAgain
      omega
  · refine Or.inr ⟨(refused_of_returned returned both).1, ?_⟩
    rintro ⟨path, source, r, _, hasSource, registry, _⟩
    exact both ⟨path, source, r, hasSource, registry⟩

end Request

namespace Assembly

variable {a : Assembly} {label : Option String} {style : Style}

theorem hasErrors_eq_false_iff : a.hasErrors = false ↔ a.diagnostics = [] := by
  rw [hasErrors, Bool.not_eq_false', List.isEmpty_iff]

theorem print_of_errors (errors : a.diagnostics ≠ []) :
    a.print label style = "=== Assembly Result ===\n" ++
      String.intercalate "\n" (s!"=== {a.diagnostics.length} Error(s) ===" ::
        a.diagnostics.map (Diagnostic.text label)) ++ "\n\n" ++
      "Build failed due to errors above.\n" := by
  have failed : a.hasErrors = true := by
    rwa [← Bool.not_eq_false, hasErrors_eq_false_iff]
  obtain ⟨first, others, split⟩ := List.exists_cons_of_ne_nil errors
  rw [print, if_pos failed, split]
  rfl

theorem print_of_clean (clean : a.diagnostics = []) :
    a.print label style = "=== Assembly Result ===\n" ++ "No issues found." ++ "\n\n" ++
      ("=== Words ===\n" ++ style.render a.lines ++ "\n") := by
  have passed := hasErrors_eq_false_iff.mpr clean
  rw [print, clean, if_neg (by rw [passed]; decide)]
  rfl

end Assembly

/-- A form that is no other than octal or binary means the same with a listing and
without. -/
theorem Style.render_of_form {style : Style}
    (form : style.form = "octal" ∨ style.form = "binary") (lines : List EncodedLine) :
    style.render lines =
      if style.listing then listingText (style.form = "octal") lines
      else if style.form = "octal" then octalText (lines.map (·.word))
      else binaryText (lines.map (·.word)) := by
  obtain ⟨formName, listing⟩ := style
  rcases form with rfl | rfl <;> cases listing <;> rfl

/-- A run that ends with a status prints all words or none. Its status is zero if and only
if there are a source and a registry, and no line of the source is at fault. It is refused
with a single message if one of the two cannot be read. With faults, all of them are
printed and no word is, whatever the other lines give. -/
theorem run_all_or_nothing [Machine] {q : Request} {files : Files} {status : Nat}
    (form : q.style.form = "octal" ∨ q.style.form = "binary")
    (returned : (q.run files).status = .ok status) :
    (status = 0 ∨ status = 1) ∧
    (status = 0 ↔ ∃ path source r a, q.HasSource files path source ∧ q.HasRegistry files r ∧
      Assembly.ofSource r source = .ok a ∧ a.diagnostics = []) ∧
    ((¬ ∃ path source r, q.HasSource files path source ∧ q.HasRegistry files r) →
      (q.run files).out = "" ∧
        ∃ message, q.Refused files message ∧ (q.run files).err = s!"error: {message}\n") ∧
    (∀ message, q.Refused files message → status = 1 ∧ (q.run files).out = "" ∧
      (q.run files).err = s!"error: {message}\n") ∧
    ∀ path source r, q.HasSource files path source → q.HasRegistry files r →
      ∃ a, Assembly.ofSource r source = .ok a ∧ (q.run files).err = "" ∧
        (a.diagnostics ≠ [] → (q.run files).out = "=== Assembly Result ===\n" ++
          String.intercalate "\n" (s!"=== {a.diagnostics.length} Error(s) ===" ::
            a.diagnostics.map (Diagnostic.text (some (String.ofList path.text)))) ++ "\n\n" ++
          "Build failed due to errors above.\n") ∧
        (a.diagnostics = [] → (q.run files).out =
          "=== Assembly Result ===\n" ++ "No issues found." ++ "\n\n" ++ ("=== Words ===\n" ++
            (if q.style.listing then listingText (q.style.form = "octal") a.lines
              else if q.style.form = "octal" then octalText a.words
              else binaryText a.words) ++ "\n")) := by
  have ended := Request.zero_or_one returned
  refine ⟨ended.imp And.left And.left, ?_, fun neither => ?_, fun message refused => ?_,
    fun path source r hasSource registry => ?_⟩
  · rcases ended with ⟨isZero, clean⟩ | ⟨isOne, unclean⟩
    · exact iff_of_true isZero clean
    · exact iff_of_false (by omega) unclean
  · obtain ⟨_, message, refused⟩ := Request.refused_of_returned returned neither
    rw [refused.run]
    exact ⟨rfl, message, refused, rfl⟩
  · rw [refused.run] at returned ⊢
    exact ⟨(Except.ok.inj returned).symm, rfl, rfl⟩
  · obtain ⟨a, given, _, err, out⟩ := hasSource.assembled registry returned
    refine ⟨a, given, err, fun errors => ?_, fun clean => ?_⟩
    · rw [out, Assembly.print_of_errors errors]
    · rw [out, Assembly.print_of_clean clean, Style.render_of_form form]
      rfl

/-- A source with a good line before a faulty one. -/
def faultySource : List Char :=
  "LDR 1,2,10,1\nXYZ 1".toList

/-- What that source gives: a word, which is not printed, and a diagnostic. -/
def faultyAssembly : Assembly where
  lines := [⟨1, "LDR 1,2,10,1".toList, ⟨83360⟩⟩]
  diagnostics := [⟨"E001", "unknown opcode: 'XYZ'", ⟨2, 1, 2⟩⟩]
  log := [⟨.debug, "isa18.packer", "Writing: opcode = 1, R = 1, X = 2, I = 1, ADDR = 10"⟩,
    ⟨.warning, "isa18.assembler", "Line 2: illegal operation 'XYZ 1': unknown opcode: 'XYZ'"⟩]

/-- The source in a file of its own. -/
def faultyTree : FileTree :=
  ⟨[([['s']], some (faultySource.map fun c => c.toNat.toUInt8))], []⟩

/-- The request to assemble that source with the standard registry. -/
def faultyRequest : Request :=
  ⟨⟨0, [['s']]⟩, .standard, .standard⟩

theorem run_all_or_nothing_faultyRequest :
    (faultyRequest.run faultyTree.files).status = .ok 1 ∧
    Assembly.ofSource .standard faultySource = .ok faultyAssembly ∧
    (faultyRequest.run faultyTree.files).err = "" ∧
    (faultyRequest.run faultyTree.files).out =
      "=== Assembly Result ===\n=== 1 Error(s) ===\n" ++
        "[E001] error: unknown opcode: 'XYZ' at s:2:1-2\n\nBuild failed due to errors above.\n" := by
  have returned : (faultyRequest.run faultyTree.files).status = .ok 1 := rfl
  have hasSource : faultyRequest.HasSource faultyTree.files ⟨0, [['s']]⟩ faultySource :=
    ⟨rfl, _, rfl, by decide +kernel⟩
  have assembled : Assembly.ofSource .standard faultySource = .ok faultyAssembly := by
    decide +kernel
  obtain ⟨a, given, err, printed, _⟩ := (run_all_or_nothing (Or.inl rfl) returned).2.2.2.2 _ _ _
    hasSource (.standard rfl)
  obtain rfl : faultyAssembly = a := Except.ok.inj (assembled.symm.trans given)
  refine ⟨returned, assembled, err, ?_⟩
  rw [printed (by decide)]
  decide +kernel

end WordAssembler
