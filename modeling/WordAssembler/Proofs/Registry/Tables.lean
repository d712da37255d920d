import WordAssembler.Instruction
import WordAssembler.Proofs.Registry.Entries

namespace WordAssembler

/-- A table with a value under a key. A key that is there already keeps its place. -/
def putKey {α : Type} (table : List (Text × α)) (key : Text) (value : α) :
    List (Text × α) :=
  if (table.lookup key).isSome then table.map fun (k, v) => if k = key then (k, value) else (k, v)
  else table ++ [(key, value)]

theorem putKey_of_absent {α : Type} {table : List (Text × α)} {key : Text}
    (absent : table.lookup key = none) (value : α) :
    putKey table key value = table ++ [(key, value)] := by
  rw [putKey, absent]
  rfl

/-- A registry as two tables by key, filled one entry after another. Nothing in their type
says that they have the same keys. -/
structure KeyTables where
  formats : List (Text × Format)
  opcodes : List (Text × Int)

namespace KeyTables

variable [Machine]

/-- Adds an entry to both tables, if it may stand there. Whether its key is new is asked of
the table of formats alone. -/
def register (t : KeyTables) (entry : Entry) : Except TableFault KeyTables :=
  if entry.key.length < 2 ∨ 3 < entry.key.length then .error (.keyLength entry.key)
  else if (t.formats.lookup entry.key).isSome then .error (.duplicateKey entry.key)
  else
    match checkFits entry.opcode opcodeSlot.width false with
    | .ok _ =>
      .ok ⟨putKey t.formats entry.key entry.format, putKey t.opcodes entry.key entry.opcode⟩
    | .error fault => .error (.opcode fault)

/-- The tables of a list of entries, unless one of them is refused. -/
def ofEntries (entries : List Entry) : Except TableFault KeyTables :=
  entries.foldlM register ⟨[], []⟩

/-- Decodes a word by the first key with its operation code, whose format is then looked up
in the other table. Nothing is the answer if that look-up misses. -/
def decode (t : KeyTables) (w : Word) : Option Decoded :=
  let opcode := opcodeSlot.read w
  match t.opcodes.find? (·.2 == (opcode : Int)) with
  | none => some (.unknown opcode w.toNat)
  | some (key, _) =>
    (t.formats.lookup key).map fun format =>
      .known opcode (Text.trim key) format (format.layout.read w)

/-- The tables that hold what entries say, in their order. -/
def holding (entries : List Entry) : KeyTables :=
  ⟨entries.map fun e => (e.key, e.format), entries.map fun e => (e.key, e.opcode)⟩

end KeyTables

theorem lookup_map_key {α : Type} (value : Entry → α) (entries : List Entry) (key : Text) :
    (entries.map fun e => (e.key, value e)).lookup key =
      (entries.find? (·.key == key)).map value := by
  induction entries with
  | nil => rfl
  | cons e rest ih =>
    rw [List.map_cons, List.lookup_cons, List.find?_cons, BEq.comm, ih]
    cases e.key == key <;> rfl

namespace KeyTables

theorem putKey_map_key {α : Type} (value : Entry → α) {before : List Entry} {entry : Entry}
    (new : ¬ before.any (·.key == entry.key)) :
    putKey (before.map fun e => (e.key, value e)) entry.key (value entry) =
      (before ++ [entry]).map fun e => (e.key, value e) := by
  have absent : before.find? (·.key == entry.key) = none := by
    rwa [← Option.not_isSome_iff_eq_none, List.isSome_find?]
  rw [putKey_of_absent (by rw [lookup_map_key, absent, Option.map_none]), List.map_append,
    List.map_singleton]

/-- Registering an entry in the tables of those before it comes to checking it against them:
one table has the keys of all of them, and so has the other. -/
theorem register_holding [Machine] (before : List Entry) (entry : Entry) :
    (holding before).register entry =
      (fun _ => holding (before ++ [entry])) <$> Registry.checkEntry before entry := by
  have used : ((holding before).formats.lookup entry.key).isSome =
      before.any (·.key == entry.key) := by
    rw [holding, lookup_map_key, Option.isSome_map, List.isSome_find?]
  unfold register Registry.checkEntry
  rw [used]
  split
  · rfl
  · by_cases duplicate : before.any (·.key == entry.key)
    · rw [if_pos duplicate, if_pos duplicate]
      rfl
    · rw [if_neg duplicate, if_neg duplicate]
      cases checkFits entry.opcode opcodeSlot.width false with
      | error fault => rfl
      | ok _ =>
        have formats := putKey_map_key (·.format) duplicate
        have opcodes := putKey_map_key (·.opcode) duplicate
        exact congrArg Except.ok (congrArg₂ KeyTables.mk formats opcodes)

theorem foldlM_register_holding [Machine] (before rest : List Entry) :
    rest.foldlM register (holding before) =
      (fun _ => holding (before ++ rest)) <$> Registry.checkEntries before.reverse rest := by
  -- The check keeps the entries before in reverse, the tables keep them in order.
  induction rest generalizing before with
  | nil =>
    rw [List.append_nil]
    rfl
  | cons entry rest ih =>
    have reversed : Registry.checkEntry before.reverse entry =
        Registry.checkEntry before entry := by
      rw [Registry.checkEntry, List.any_reverse, ← Registry.checkEntry]
    rw [List.foldlM_cons, register_holding, Registry.checkEntries, reversed]
    cases Registry.checkEntry before entry with
    | error fault => rfl
    | ok _ =>
      have next := ih (before ++ [entry])
      rw [List.append_assoc, List.reverse_append] at next
      exact next

/-- The two tables that are filled side by side hold the entries of the registry, and they
are refused for the same reason as it is. -/
theorem ofEntries_eq [Machine] (entries : List Entry) (flags : List Json) :
    ofEntries entries = (fun r => holding r.entries) <$> Registry.ofEntries entries flags := by
  have run : ofEntries entries = (fun _ => holding entries) <$> Registry.checkEntries [] entries :=
    foldlM_register_holding [] entries
  rw [run, Registry.ofEntries]
  cases Registry.checkEntries [] entries with
  | error fault => rfl
  | ok _ => rfl

theorem keys_holding (entries : List Entry) :
    (holding entries).formats.map Prod.fst = entries.map (·.key) ∧
      (holding entries).opcodes.map Prod.fst = entries.map (·.key) := by
  simp only [holding, List.map_map, Function.comp_def, and_self]

theorem lookup_holding (r : Registry) (key : Text) :
    (holding r.entries).formats.lookup key = r.format? key ∧
      (holding r.entries).opcodes.lookup key = r.opcode? key :=
  ⟨lookup_map_key _ _ _, lookup_map_key _ _ _⟩

/-- The format of a key that is found by its operation code is never missed, and it is the
format of the entry that the code belongs to. -/
theorem decode_holding {r : Registry} (wellFormed : WellFormed r.entries) (w : Word) :
    (holding r.entries).decode w = some (Decoded.ofWord r w) := by
  have first : (holding r.entries).opcodes.find? (·.2 == ((opcodeSlot.read w : Nat) : Int)) =
      (r.findOpcode? (opcodeSlot.read w)).map fun e => (e.key, e.opcode) := List.find?_map ..
  simp only [decode, Decoded.ofWord, first]
  cases found : r.findOpcode? (opcodeSlot.read w) with
  | none => rfl
  | some entry =>
    have member := List.mem_of_find?_eq_some found
    have again := (Registry.find?_eq_some_iff wellFormed).mpr ⟨member, rfl⟩
    simp only [Option.map_some, (lookup_holding r entry.key).1, Registry.format?, again]

end KeyTables

end WordAssembler
