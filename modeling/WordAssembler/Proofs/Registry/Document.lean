import WordAssembler.Proofs.Except
import WordAssembler.Proofs.Registry.Entries
import WordAssembler.Run

namespace WordAssembler

/-- Values that are asked for capitals as if they were texts: they are neither
texts nor integers nor truth values. -/
def Json.Nameless : Json → Prop
  | .null | .float _ | .list _ | .object _ => True
  | .bool _ | .int _ | .text _ => False

theorem DocumentFault.kind_faultClass_ne_value (v : Json) :
    (format (.kind v)).faultClass ≠ .value := by
  intro same
  cases same

/-- A value that names no format is told as unfit, unless it has no name to be asked for. -/
theorem Format.ofJson_error_cases {value : Json} {fault : FormatFault}
    (failed : Format.ofJson value = .error fault) :
    fault.faultClass = .value ∨ value.Nameless ∧ fault = .kind value := by
  have looked {format? : Option Format} {other : FormatFault} (unfit : other.faultClass = .value)
      (failed : format?.elim (.error other) .ok = (.error fault : Except FormatFault Format)) :
      fault.faultClass = .value := by
    cases format? with
    | none => exact Except.error.inj failed ▸ unfit
    | some format => cases failed
  cases value with
  | int n => exact Or.inl (looked rfl failed)
  | bool b => exact Or.inl (looked rfl failed)
  | text s => exact Or.inl (looked rfl failed)
  | null | float | list | object =>
    cases failed
    exact Or.inr ⟨trivial, rfl⟩

theorem Format.ofJson_eq_error_kind_iff {value v : Json} :
    Format.ofJson value = .error (.kind v) ↔ value = v ∧ v.Nameless := by
  constructor
  · intro failed
    rcases Format.ofJson_error_cases failed with unfit | ⟨nameless, same⟩
    · cases unfit
    · cases same
      exact ⟨rfl, nameless⟩
  · rintro ⟨rfl, nameless⟩
    cases value with
    | int | bool | text => exact nameless.elim
    | null | float | list | object => rfl

namespace Registry

theorem itemMember_eq_ok_iff {item value : Json} {name : Text} :
    itemMember item name = .ok value ↔
      ∃ members, item = .object members ∧ Json.member? name members = some value := by
  cases item with
  | object members =>
    simp only [itemMember, Json.object.injEq, exists_eq_left']
    cases Json.member? name members <;> simp
  | _ => simp [itemMember]

theorem itemMember_faultClass {item : Json} {name : Text} {fault : DocumentFault}
    (failed : itemMember item name = .error fault) : fault.faultClass = .value := by
  cases item with
  | object members =>
    simp only [itemMember] at failed
    split at failed
    · cases failed
    · cases failed
      rfl
  | _ =>
    cases failed
    rfl

/-- A value of a wrong kind is told together with the item, and so as unfit. -/
theorem itemOpcode_faultClass {item value : Json} {fault : DocumentFault}
    (failed : itemOpcode item value = .error fault) : fault.faultClass = .value := by
  unfold itemOpcode at failed
  split at failed
  · cases failed
  · rename_i other _
    cases failed
    cases other with
    | boolean | kind => rfl
    | malformed | tooManyDigits => rfl

theorem flagsOfJson_faultClass {value : Json} {fault : DocumentFault}
    (failed : flagsOfJson value = .error fault) : fault.faultClass = .value := by
  cases value with
  | list | text | object => cases failed
  | null | bool | int | float =>
    cases failed
    rfl

theorem entryOfJson_error_cases {item : Json} {fault : DocumentFault}
    (failed : entryOfJson item = .error fault) :
    fault.faultClass = .value ∨ ∃ v, fault = .format (.kind v) := by
  simp only [entryOfJson, bind_eq_error_iff] at failed
  rcases failed with noMnemonic | ⟨mnemonic, _, noFormat | ⟨value, _, unnamed | later⟩⟩
  · exact Or.inl (itemMember_faultClass noMnemonic)
  · exact Or.inl (itemMember_faultClass noFormat)
  · obtain ⟨formatFault, given, rfl⟩ := mapError_eq_error_iff.mp unnamed
    exact (Format.ofJson_error_cases given).imp id fun named => ⟨value, congrArg _ named.2⟩
  · obtain ⟨format, _, noOpcode | ⟨code, _, unread | ⟨opcode, _, last⟩⟩⟩ := later
    · exact Or.inl (itemMember_faultClass noOpcode)
    · exact Or.inl (itemOpcode_faultClass unread)
    · split at last
      · cases last
      · cases last
        exact Or.inl rfl

/-- The item has a mnemonic and a nameless value in the place of its format. -/
def NamelessFormat (item v : Json) : Prop :=
  v.Nameless ∧ ∃ members mnemonic, item = .object members ∧
    Json.member? "mnemonic".toList members = some mnemonic ∧
    Json.member? "format".toList members = some v

theorem entryOfJson_eq_error_kind_iff {item v : Json} :
    entryOfJson item = .error (.format (.kind v)) ↔ NamelessFormat item v := by
  simp only [entryOfJson, bind_eq_error_iff]
  constructor
  · rintro (impossible | ⟨mnemonic, atMnemonic, impossible | ⟨value, atFormat, failed | later⟩⟩)
    · exact absurd (itemMember_faultClass impossible) (DocumentFault.kind_faultClass_ne_value v)
    · exact absurd (itemMember_faultClass impossible) (DocumentFault.kind_faultClass_ne_value v)
    · obtain ⟨fault, given, equal⟩ := mapError_eq_error_iff.mp failed
      cases equal
      obtain ⟨rfl, nameless⟩ := Format.ofJson_eq_error_kind_iff.mp given
      obtain ⟨members, rfl, hasMnemonic⟩ := itemMember_eq_ok_iff.mp atMnemonic
      obtain ⟨_, equal, hasFormat⟩ := itemMember_eq_ok_iff.mp atFormat
      cases equal
      exact ⟨nameless, members, mnemonic, rfl, hasMnemonic, hasFormat⟩
    · obtain ⟨format, _, impossible | ⟨code, _, impossible | ⟨opcode, _, last⟩⟩⟩ := later
      · exact absurd (itemMember_faultClass impossible) (DocumentFault.kind_faultClass_ne_value v)
      · exact absurd (itemOpcode_faultClass impossible) (DocumentFault.kind_faultClass_ne_value v)
      · split at last <;> cases last
  · rintro ⟨nameless, members, mnemonic, rfl, hasMnemonic, hasFormat⟩
    have atMnemonic := itemMember_eq_ok_iff.mpr ⟨members, rfl, hasMnemonic⟩
    have atFormat := itemMember_eq_ok_iff.mpr ⟨members, rfl, hasFormat⟩
    have failed := Format.ofJson_eq_error_kind_iff.mpr ⟨rfl, nameless⟩
    exact Or.inr ⟨mnemonic, atMnemonic, Or.inr ⟨v, atFormat,
      Or.inl (mapError_eq_error_iff.mpr ⟨_, failed, rfl⟩)⟩⟩

/-- The instruction list of a value, which is empty if there is none. -/
def instructionItems? : Json → Option (List Json)
  | .object members =>
    match (Json.member? "instructions".toList members).getD (.list []) with
    | .list items => some items
    | _ => none
  | _ => none

/-- In the instruction list of the value the first item that is no entry is one
with a nameless format. -/
def NamesNoFormat (value v : Json) : Prop :=
  ∃ items before item after, instructionItems? value = some items ∧
    items = before ++ item :: after ∧
    (∀ i ∈ before, ∃ entry, entryOfJson i = .ok entry) ∧ NamelessFormat item v

/-- Nothing but an item with a nameless format makes a value end the work. -/
theorem ofJson_eq_error_kind_iff [Machine] {value v : Json} :
    ofJson value = .error (.format (.kind v)) ↔ NamesNoFormat value v := by
  cases value with
  | object members =>
    cases listed : (Json.member? "instructions".toList members).getD (.list []) with
    | list items =>
      have isList : instructionItems? (.object members) = some items := by
        simp only [instructionItems?, listed]
      simp only [ofJson, listed, NamesNoFormat, isList, bind_eq_error_iff, mapM_eq_error_iff,
        entryOfJson_eq_error_kind_iff]
      constructor
      · rintro (⟨before, item, after, split, through, nameless⟩ | ⟨entries, _, later⟩)
        · exact ⟨items, before, item, after, rfl, split, through, nameless⟩
        · rcases later with impossible | ⟨_, _, impossible | ⟨flags, _, last⟩⟩
          · obtain ⟨fault, _, equal⟩ := mapError_eq_error_iff.mp impossible
            cases equal
          · exact absurd (flagsOfJson_faultClass impossible) (DocumentFault.kind_faultClass_ne_value v)
          · cases last
      · rintro ⟨_, before, item, after, equal, split, through, nameless⟩
        cases equal
        exact Or.inl ⟨before, item, after, split, through, nameless⟩
    | _ =>
      simp only [ofJson, listed, NamesNoFormat, instructionItems?, Except.error.injEq, reduceCtorEq,
        false_and, exists_false]
  | _ => simp [ofJson, NamesNoFormat, instructionItems?]

/-- An entry that cannot be registered is told as an unfit value, whichever rule it breaks. -/
theorem checkEntry_faultClass [Machine] {before : List Entry} {entry : Entry} {fault : TableFault}
    (refused : checkEntry before entry = .error fault) :
    (DocumentFault.table fault).faultClass = .value := by
  have checked := checkFits_unsigned entry.opcode opcodeSlot_width_le_lastExponent
  unfold checkEntry at refused
  rw [checked] at refused
  split at refused
  · cases refused
    rfl
  · split at refused
    · cases refused
      rfl
    · split at refused
      · cases refused
      · rename_i bitFault outside
        cases refused
        split at outside
        · cases outside
        · obtain rfl := Except.error.inj outside
          rw [BitFault.reported]
          split <;> rfl

theorem checkEntries_faultClass [Machine] {before rest : List Entry} {fault : TableFault}
    (refused : checkEntries before rest = .error fault) :
    (DocumentFault.table fault).faultClass = .value := by
  induction rest generalizing before with
  | nil => cases refused
  | cons entry rest ih =>
    rcases bind_eq_error_iff.mp refused with first | ⟨_, _, later⟩
    · exact checkEntry_faultClass first
    · exact ih later

/-- Every fault of a value is told as an unfit value, but for a nameless format. -/
theorem ofJson_error_cases [Machine] {value : Json} {fault : DocumentFault}
    (failed : ofJson value = .error fault) :
    fault.faultClass = .value ∨ ∃ v, fault = .format (.kind v) := by
  cases value with
  | object members =>
    simp only [ofJson] at failed
    split at failed
    · rcases bind_eq_error_iff.mp failed with unread | ⟨entries, _, later⟩
      · obtain ⟨_, item, _, _, _, noEntry⟩ := mapM_eq_error_iff.mp unread
        exact entryOfJson_error_cases noEntry
      · rcases bind_eq_error_iff.mp later with refused | ⟨_, _, last⟩
        · obtain ⟨tableFault, given, rfl⟩ := mapError_eq_error_iff.mp refused
          exact Or.inl (checkEntries_faultClass given)
        · rcases bind_eq_error_iff.mp last with unlisted | ⟨_, _, impossible⟩
          · exact Or.inl (flagsOfJson_faultClass unlisted)
          · cases impossible
    · cases failed
      exact Or.inl rfl
  | _ =>
    cases failed
    exact Or.inl rfl

/-- A value describes a registry exactly if it is an object whose instruction list consists of
items that are entries, which could be registered, and whose flags can be listed. -/
theorem ofJson_eq_ok_iff [Machine] {value : Json} {r : Registry} :
    ofJson value = .ok r ↔
      ∃ members items, value = .object members ∧ instructionItems? value = some items ∧
        items.mapM entryOfJson = .ok r.entries ∧ WellFormed r.entries ∧
        flagsOfJson ((Json.member? "index_to_flags".toList members).getD (.list defaultFlags)) =
          .ok r.flags := by
  cases value with
  | object members =>
    cases listed : (Json.member? "instructions".toList members).getD (.list []) with
    | list items =>
      simp only [ofJson, instructionItems?, listed]
      constructor
      · intro given
        obtain ⟨entries, read, later⟩ := bind_eq_ok_iff.mp given
        obtain ⟨_, checked, last⟩ := bind_eq_ok_iff.mp later
        obtain ⟨flags, flagged, equal⟩ := bind_eq_ok_iff.mp last
        cases equal
        have accepted := checkEntries_eq_ok_iff.mp (mapError_eq_ok_iff.mp checked)
        exact ⟨members, items, rfl, rfl, read, accepted.1, flagged⟩
      · rintro ⟨_, _, equal, same, read, wellFormed, flagged⟩
        cases equal
        cases same
        have checked : checkEntries [] r.entries = .ok () :=
          checkEntries_eq_ok_iff.mpr ⟨wellFormed, by simp⟩
        exact bind_eq_ok_iff.mpr ⟨_, read, bind_eq_ok_iff.mpr ⟨(), mapError_eq_ok_iff.mpr checked,
          bind_eq_ok_iff.mpr ⟨_, flagged, rfl⟩⟩⟩
    | _ =>
      simp only [ofJson, instructionItems?, listed, reduceCtorEq, false_and, and_false,
        exists_false]
  | _ => simp [ofJson]

/-- Every registry that a value describes is one that could be built entry by
entry. -/
theorem ofEntries_of_ofJson [Machine] {value : Json} {r : Registry} (given : ofJson value = .ok r) :
    ofEntries r.entries r.flags = .ok r := by
  obtain ⟨_, _, _, _, _, wellFormed, _⟩ := ofJson_eq_ok_iff.mp given
  exact ofEntries_eq_ok_iff.mpr ⟨wellFormed, rfl⟩

end Registry

end WordAssembler
