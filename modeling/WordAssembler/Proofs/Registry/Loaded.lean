import WordAssembler.Proofs.Registry.Document

namespace WordAssembler

/-- Integers, and truth values as well where they count as integers. -/
def Json.IsInteger (truthValues : Bool) : Json → Prop
  | .int _ => True
  | .bool _ => truthValues
  | _ => False

/-- A value lists integers and nothing else: it is a list of them, or a text or an object with
nothing in it. -/
def Json.ListsIntegers (truthValues : Bool) : Json → Prop
  | .list items => ∀ item ∈ items, item.IsInteger truthValues
  | .text s => s = []
  | .object members => members = []
  | _ => False

/-- The flags that a value gives are integers, or it gives none, so that the default ones are
taken. -/
def Registry.ListsIntegerFlags (truthValues : Bool) : Json → Prop
  | .object members =>
    match Json.member? "index_to_flags".toList members with
    | none => True
    | some flags => flags.ListsIntegers truthValues
  | _ => False

namespace Registry

/-- A text is listed by its characters and an object by the names of its members, and neither
is an integer. -/
theorem integers_of_flagsOfJson {truthValues : Bool} {value : Json} {flags : List Json}
    (listed : flagsOfJson value = .ok flags) :
    (∀ flag ∈ flags, flag.IsInteger truthValues) ↔ value.ListsIntegers truthValues := by
  cases value with
  | list items =>
    cases listed
    rfl
  | text s =>
    cases listed
    cases s with
    | nil => simp [Json.ListsIntegers]
    | cons c rest => simp [Json.ListsIntegers, Json.IsInteger]
  | object members =>
    cases listed
    cases members with
    | nil => simp [Json.ListsIntegers]
    | cons m rest => simp [Json.ListsIntegers, Json.IsInteger]
  | null | bool | int | float => cases listed

theorem integers_iff_listsIntegerFlags [Machine] (truthValues : Bool) {value : Json} {r : Registry}
    (given : ofJson value = .ok r) :
    (∀ flag ∈ r.flags, flag.IsInteger truthValues) ↔ ListsIntegerFlags truthValues value := by
  obtain ⟨members, _, rfl, _, _, _, listed⟩ := ofJson_eq_ok_iff.mp given
  rw [integers_of_flagsOfJson listed, ListsIntegerFlags]
  cases Json.member? "index_to_flags".toList members with
  | none => simp [Json.ListsIntegers, defaultFlags, Json.IsInteger]
  | some flags => rfl

theorem flag_eq_ok_iff {r : Registry} {index : Int} {value : Json} :
    r.flag index = .ok value ↔ 0 ≤ index ∧ r.flags[index.toNat]? = some value := by
  have found : r.flag index = .ok value ↔ r.flag? index = some value := by
    rw [flag]
    cases r.flag? index <;> simp
  rw [found, flag?]
  split
  · rename_i negative
    simp only [reduceCtorEq, false_iff]
    omega
  · rename_i nonneg
    exact (and_iff_right (by omega)).symm

/-- There is a flag at exactly the indices of the list. -/
theorem exists_flag_iff {r : Registry} {index : Int} :
    (∃ value, r.flag index = .ok value) ↔ 0 ≤ index ∧ index < r.flags.length := by
  constructor
  · rintro ⟨value, found⟩
    obtain ⟨nonneg, atIndex⟩ := flag_eq_ok_iff.mp found
    obtain ⟨inside, _⟩ := List.getElem?_eq_some_iff.mp atIndex
    omega
  · rintro ⟨nonneg, inside⟩
    exact ⟨_, flag_eq_ok_iff.mpr ⟨nonneg, List.getElem?_eq_getElem (by omega)⟩⟩

/-- An index without a flag is told as such, unless it has too many digits to be told. -/
theorem flag_faultClass {r : Registry} {index : Int} {fault : FlagFault}
    (absent : r.flag index = .error fault) :
    fault.faultClass = if Writable index then .index else .value := by
  unfold flag at absent
  split at absent
  · cases absent
  · obtain rfl := Except.error.inj absent
    split <;> rfl

theorem forall_flag_iff {r : Registry} {P : Json → Prop} :
    (∀ index : Int, 0 ≤ index → index < r.flags.length →
        ∃ value, r.flag index = .ok value ∧ P value) ↔
      ∀ value ∈ r.flags, P value := by
  constructor
  · intro each value member
    obtain ⟨i, inside, rfl⟩ := List.mem_iff_getElem.mp member
    obtain ⟨found, atIndex, holds⟩ := each i (by omega) (by omega)
    have same := (flag_eq_ok_iff.mp atIndex).2
    rw [Int.toNat_natCast, List.getElem?_eq_getElem inside] at same
    exact Option.some.inj same ▸ holds
  · intro each index nonneg inside
    obtain ⟨value, found⟩ := exists_flag_iff.mpr ⟨nonneg, inside⟩
    exact ⟨value, found, each value (List.mem_of_getElem? (flag_eq_ok_iff.mp found).2)⟩

end Registry

/-- What is loaded is well typed up to its flags: keys have two or three characters and are
distinct, operation codes fit their slot, and there is a flag at exactly the indices of the
list. The flags are integers exactly if the value lists integers, which is not asked of it. -/
theorem loaded_wellTyped_up_to_flags [Machine] (value : Json) (r : Registry)
    (given : Registry.ofJson value = .ok r) :
    (∀ e ∈ r.entries, (2 ≤ e.key.length ∧ e.key.length ≤ 3) ∧ 0 ≤ e.opcode ∧ e.opcode < 64) ∧
    (r.entries.Pairwise fun a b => a.key ≠ b.key) ∧
    (∀ index : Int,
      ((∃ flag, r.flag index = .ok flag) ↔ 0 ≤ index ∧ index < r.flags.length) ∧
      ∀ fault, r.flag index = .error fault →
        fault.faultClass = if Writable index then .index else .value) ∧
    ∀ truthValues,
      ((∀ flag ∈ r.flags, flag.IsInteger truthValues) ↔
        Registry.ListsIntegerFlags truthValues value) ∧
      ((∀ index : Int, 0 ≤ index → index < r.flags.length →
          ∃ flag, r.flag index = .ok flag ∧ flag.IsInteger truthValues) ↔
        Registry.ListsIntegerFlags truthValues value) := by
  have wellFormed := Registry.ofEntries_wellFormed (Registry.ofEntries_of_ofJson given)
  have integers (truthValues : Bool) :=
    Registry.integers_iff_listsIntegerFlags truthValues given
  exact ⟨fun e member => ⟨wellFormed.keyLength e member, wellFormed.opcodeRange e member⟩,
    wellFormed.distinct,
    fun index => ⟨Registry.exists_flag_iff, fun fault absent => Registry.flag_faultClass absent⟩,
    fun truthValues =>
      ⟨integers truthValues, Registry.forall_flag_iff.trans (integers truthValues)⟩⟩

/-- A registry of one instruction with a text in the place of the list of flags. -/
def textFlagsRegistry : Json :=
  .object [("instructions".toList, .list [.object
      [("mnemonic".toList, .text "LDR".toList), ("format".toList, .int 1),
        ("opcode".toList, .int 1)]]),
    ("index_to_flags".toList, .text "84".toList)]

/-- What is loaded from it. -/
def loadedTextFlags : Registry :=
  ⟨[.ofWord "LDR" .one 1], [.text (Text.ofChars ['8']), .text (Text.ofChars ['4'])]⟩

theorem loaded_wellTyped_up_to_flags_textFlags :
    Registry.ofJson textFlagsRegistry = .ok loadedTextFlags ∧
    (loadedTextFlags.entries.Pairwise fun a b => a.key ≠ b.key) ∧
    (∃ flag, loadedTextFlags.flag 1 = .ok flag) ∧
    ¬ ∃ flag, loadedTextFlags.flag 2 = .ok flag := by
  have given : Registry.ofJson textFlagsRegistry = .ok loadedTextFlags := rfl
  obtain ⟨_, distinct, inside, _⟩ := loaded_wellTyped_up_to_flags _ _ given
  exact ⟨given, distinct, (inside 1).1.mpr (by decide),
    fun found => absurd ((inside 2).1.mp found) (by decide)⟩

/-- Its flags are characters, although it is loaded. -/
theorem textFlags_loaded :
    ∃ r, Registry.ofJson textFlagsRegistry = .ok r ∧ r.flag 0 = .ok (.text (Text.ofChars ['8'])) ∧
      ¬ ∀ flag ∈ r.flags, flag.IsInteger true :=
  ⟨loadedTextFlags, rfl, rfl,
    fun integers => integers (.text (Text.ofChars ['8'])) (List.mem_cons_self ..)⟩

end WordAssembler
