import WordAssembler.Proofs.Bits.WidthCheck
import WordAssembler.Proofs.Registry.Tables

namespace WordAssembler

/-- Why an entry cannot stand after those before it. Of several reasons the first one counts:
the length of its key, then that the key is taken, then the range of its operation code. -/
inductive Offends (before : List Entry) (entry : Entry) : TableFault → Prop
  | keyLength : entry.key.length < 2 ∨ 3 < entry.key.length →
      Offends before entry (.keyLength entry.key)
  | duplicateKey : 2 ≤ entry.key.length ∧ entry.key.length ≤ 3 →
      (∃ e ∈ before, e.key = entry.key) → Offends before entry (.duplicateKey entry.key)
  | opcode : 2 ≤ entry.key.length ∧ entry.key.length ≤ 3 → (∀ e ∈ before, e.key ≠ entry.key) →
      entry.opcode < 0 ∨ 64 ≤ entry.opcode →
      Offends before entry (.opcode (.overflow entry.opcode false 6))

theorem Offends.of_mem_iff {before others : List Entry} {entry : Entry} {fault : TableFault}
    (offends : Offends before entry fault) (same : ∀ e, e ∈ before ↔ e ∈ others) :
    Offends others entry fault := by
  cases offends with
  | keyLength wrong => exact .keyLength wrong
  | duplicateKey length taken =>
    obtain ⟨e, member, equal⟩ := taken
    exact .duplicateKey length ⟨e, (same e).mp member, equal⟩
  | opcode length new beyond =>
    exact .opcode length (fun e member => new e ((same e).mpr member)) beyond

/-- An operation code out of range is an error in a program, the other reasons are unfit values. -/
theorem Offends.faultClass {before : List Entry} {entry : Entry} {fault : TableFault}
    (offends : Offends before entry fault) :
    fault.faultClass =
      if (2 ≤ entry.key.length ∧ entry.key.length ≤ 3) ∧ ∀ e ∈ before, e.key ≠ entry.key
      then .encoding .widthOverflow else .value := by
  cases offends with
  | keyLength wrong =>
    rw [if_neg fun right => by omega]
    rfl
  | duplicateKey length taken =>
    obtain ⟨e, member, same⟩ := taken
    rw [if_neg fun right => right.2 e member same]
    rfl
  | opcode length new beyond =>
    rw [if_pos ⟨length, new⟩]
    rfl

namespace Registry

theorem checkFits_opcode [Machine] {opcode : Int} (writable : Writable opcode) :
    checkFits opcode opcodeSlot.width false =
      if 0 ≤ opcode ∧ opcode < 64 then .ok opcode
      else .error (.overflow opcode false 6) := by
  have shown : Writable (opcodeSlot.width : Nat) := by decide +kernel
  rw [checkFits_unsigned opcode opcodeSlot_width_le_lastExponent, reported_overflow _ _ shown, if_pos writable]
  rfl

theorem checkEntry_eq_error_iff [Machine] {before : List Entry} {entry : Entry} {fault : TableFault}
    (writable : Writable entry.opcode) :
    checkEntry before entry = .error fault ↔ Offends before entry fault := by
  have taken_iff : before.any (·.key == entry.key) ↔ ∃ e ∈ before, e.key = entry.key := by
    simp only [List.any_eq_true, beq_iff_eq]
  unfold checkEntry
  rw [checkFits_opcode writable]
  constructor
  · intro failed
    by_cases wrongLength : entry.key.length < 2 ∨ 3 < entry.key.length
    · rw [if_pos wrongLength] at failed
      cases failed
      exact .keyLength wrongLength
    · rw [if_neg wrongLength] at failed
      have length : 2 ≤ entry.key.length ∧ entry.key.length ≤ 3 := by omega
      by_cases taken : before.any (·.key == entry.key)
      · rw [if_pos taken] at failed
        cases failed
        exact .duplicateKey length (taken_iff.mp taken)
      · rw [if_neg taken] at failed
        by_cases range : 0 ≤ entry.opcode ∧ entry.opcode < 64
        · rw [if_pos range] at failed
          cases failed
        · rw [if_neg range] at failed
          cases failed
          refine .opcode length (fun e member same => ?_) (by omega)
          exact taken (taken_iff.mpr ⟨e, member, same⟩)
  · intro offends
    cases offends with
    | keyLength wrong => rw [if_pos wrong]
    | duplicateKey length taken => rw [if_neg (by omega), if_pos (taken_iff.mpr taken)]
    | opcode length new beyond =>
      have free : ¬ before.any (·.key == entry.key) := fun taken => by
        obtain ⟨e, member, same⟩ := taken_iff.mp taken
        exact new e member same
      rw [if_neg (by omega), if_neg free, if_neg (by omega)]

/-- A list of entries is refused at the first one that is, by what stands before it. -/
theorem checkEntries_eq_error_iff [Machine] {before rest : List Entry} {fault : TableFault} :
    checkEntries before rest = .error fault ↔
      ∃ through entry after, rest = through ++ entry :: after ∧
        checkEntries before through = .ok () ∧
        checkEntry (through.reverse ++ before) entry = .error fault := by
  induction rest generalizing before with
  | nil => simp [checkEntries]
  | cons first rest ih =>
    rw [checkEntries, bind_eq_error_iff]
    constructor
    · rintro (refused | ⟨_, passed, later⟩)
      · exact ⟨[], first, rest, rfl, rfl, refused⟩
      · obtain ⟨through, entry, after, rfl, passedAll, refused⟩ := ih.mp later
        refine ⟨first :: through, entry, after, rfl, ?_, ?_⟩
        · exact bind_eq_ok_iff.mpr ⟨(), passed, passedAll⟩
        · rwa [List.reverse_cons, List.append_assoc]
    · rintro ⟨through, entry, after, split, passedAll, refused⟩
      cases through with
      | nil =>
        obtain ⟨rfl, rfl⟩ := List.cons.inj split
        exact Or.inl refused
      | cons head tail =>
        obtain ⟨rfl, rfl⟩ := List.cons.inj split
        obtain ⟨_, passed, passedTail⟩ := bind_eq_ok_iff.mp passedAll
        rw [List.reverse_cons, List.append_assoc] at refused
        exact Or.inr ⟨(), passed, ih.mpr ⟨tail, entry, after, rfl, passedTail, refused⟩⟩

theorem ofEntries_eq_error_iff [Machine] {entries : List Entry} {flags : List Json}
    {fault : TableFault} (writable : ∀ e ∈ entries, Writable e.opcode) :
    ofEntries entries flags = .error fault ↔
      ∃ before entry after, entries = before ++ entry :: after ∧ WellFormed before ∧
        Offends before entry fault := by
  have checked : ofEntries entries flags = .error fault ↔
      checkEntries [] entries = .error fault := by
    rw [ofEntries, bind_eq_error_iff]
    constructor
    · rintro (failed | ⟨_, _, impossible⟩)
      · exact failed
      · cases impossible
    · exact Or.inl
  rw [checked, checkEntries_eq_error_iff]
  -- An entry is checked against those before it in reverse, which offends the same entries.
  constructor
  · rintro ⟨before, entry, after, rfl, passed, refused⟩
    have written := writable entry (List.mem_append_right _ (List.mem_cons_self ..))
    rw [List.append_nil, checkEntry_eq_error_iff written] at refused
    exact ⟨before, entry, after, rfl, (checkEntries_eq_ok_iff.mp passed).1,
      refused.of_mem_iff fun _ => List.mem_reverse⟩
  · rintro ⟨before, entry, after, rfl, wellFormed, offends⟩
    have written := writable entry (List.mem_append_right _ (List.mem_cons_self ..))
    refine ⟨before, entry, after, rfl, checkEntries_eq_ok_iff.mpr ⟨wellFormed, by simp⟩, ?_⟩
    rw [List.append_nil, checkEntry_eq_error_iff written]
    exact offends.of_mem_iff fun _ => List.mem_reverse.symm

theorem format?_opcode?_eq_some_iff {r : Registry} (wellFormed : WellFormed r.entries)
    {key : Text} {format : Format} {opcode : Int} :
    r.format? key = some format ∧ r.opcode? key = some opcode ↔
      ⟨key, format, opcode⟩ ∈ r.entries := by
  rw [format?, opcode?]
  constructor
  · rintro ⟨atFormat, atOpcode⟩
    obtain ⟨entry, found, rfl⟩ := Option.map_eq_some_iff.mp atFormat
    rw [found, Option.map_some] at atOpcode
    obtain ⟨member, rfl⟩ := (find?_eq_some_iff wellFormed).mp found
    obtain rfl := Option.some.inj atOpcode
    exact member
  · intro member
    have found := (find?_eq_some_iff wellFormed).mpr ⟨member, rfl⟩
    rw [found]
    exact ⟨rfl, rfl⟩

theorem lookups_eq_none_iff {r : Registry} {key : Text} :
    (r.format? key = none ↔ r.contains key = false) ∧
      (r.opcode? key = none ↔ r.contains key = false) := by
  simp only [format?, opcode?, contains, Option.map_eq_none_iff, Option.isSome_eq_false_iff,
    Option.isNone_iff_eq_none, and_self]

/-- Registration takes exactly the tables whose keys have two or three characters and are
distinct and whose operation codes fit. It keeps such a table as it is: the format and the
operation code of a key are those of its only entry, the tables by key that are filled side by
side have the keys of the entries in their order, and no format is missed in decoding. Any other
table is refused at its first entry that cannot stand after those before it. -/
theorem registration_exact [Machine] (entries : List Entry) (flags : List Json) :
    ((∃ r, ofEntries entries flags = .ok r) ↔
      (∀ e ∈ entries, 2 ≤ e.key.length ∧ e.key.length ≤ 3) ∧
      (entries.Pairwise fun a b => a.key ≠ b.key) ∧
      ∀ e ∈ entries, 0 ≤ e.opcode ∧ e.opcode < 64) ∧
    (∀ r, ofEntries entries flags = .ok r →
      r.flags = flags ∧
      (∀ key format opcode, r.format? key = some format ∧ r.opcode? key = some opcode ↔
        ⟨key, format, opcode⟩ ∈ entries) ∧
      (∀ key, (r.format? key = none ↔ r.contains key = false) ∧
        (r.opcode? key = none ↔ r.contains key = false)) ∧
      ∃ t, KeyTables.ofEntries entries = .ok t ∧
        t.formats.map Prod.fst = entries.map (·.key) ∧
        t.opcodes.map Prod.fst = entries.map (·.key) ∧
        (∀ key, t.formats.lookup key = r.format? key ∧ t.opcodes.lookup key = r.opcode? key) ∧
        ∀ w, t.decode w = some (Decoded.ofWord r w)) ∧
    ((∀ e ∈ entries, Writable e.opcode) → ∀ fault,
      (ofEntries entries flags = .error fault ↔
        ∃ before entry after, entries = before ++ entry :: after ∧ WellFormed before ∧
          Offends before entry fault) ∧
      (∀ before entry, Offends before entry fault → fault.faultClass =
        if (2 ≤ entry.key.length ∧ entry.key.length ≤ 3) ∧ ∀ e ∈ before, e.key ≠ entry.key
        then .encoding .widthOverflow else .value) ∧
      (KeyTables.ofEntries entries = .error fault ↔
        ofEntries entries flags = .error fault)) := by
  refine ⟨?_, ?_, fun writable fault =>
    ⟨ofEntries_eq_error_iff writable, fun before entry => Offends.faultClass, ?_⟩⟩
  · constructor
    · rintro ⟨r, built⟩
      obtain ⟨wellFormed, _⟩ := ofEntries_eq_ok_iff.mp built
      exact ⟨wellFormed.keyLength, wellFormed.distinct, wellFormed.opcodeRange⟩
    · rintro ⟨keyLength, distinct, opcodeRange⟩
      exact ⟨_, ofEntries_eq_ok_iff.mpr ⟨⟨keyLength, distinct, opcodeRange⟩, rfl⟩⟩
  · intro r built
    obtain ⟨wellFormed, rfl⟩ := ofEntries_eq_ok_iff.mp built
    have keys := KeyTables.keys_holding entries
    have decoded (w : Word) := KeyTables.decode_holding (r := ⟨entries, flags⟩) wellFormed w
    refine ⟨rfl, fun key format opcode => format?_opcode?_eq_some_iff wellFormed,
      fun key => lookups_eq_none_iff, KeyTables.holding entries, ?_, keys.1, keys.2,
      KeyTables.lookup_holding ⟨entries, flags⟩, decoded⟩
    rw [KeyTables.ofEntries_eq entries flags, built]
    rfl
  · rw [KeyTables.ofEntries_eq entries flags, map_eq_error_iff]

/-- A table with an operation code that is too large, behind a key that is taken. -/
def takenKeyTable : List Entry :=
  [.ofWord "LDR" .one 1, .ofWord "IN" .eight 49, .ofWord "LDR" .two 2, .ofWord "STR" .one 64]

theorem registration_exact_takenKeyTable :
    (∃ r t, ofEntries (takenKeyTable.take 2) [] = .ok r ∧
      KeyTables.ofEntries (takenKeyTable.take 2) = .ok t ∧ r.format? "IN".toList = some .eight ∧
      r.opcode? "IN".toList = some 49 ∧ r.contains "LD".toList = false ∧
      ∀ w, t.decode w = some (Decoded.ofWord r w)) ∧
    ofEntries takenKeyTable [] = .error (.duplicateKey "LDR".toList) := by
  have built : ofEntries (takenKeyTable.take 2) [] = .ok ⟨takenKeyTable.take 2, []⟩ := rfl
  obtain ⟨_, entriesOf, absent, t, tables, _, _, _, decoded⟩ :=
    (registration_exact (takenKeyTable.take 2) []).2.1 _ built
  have atIn := (entriesOf "IN".toList .eight 49).mpr (by decide)
  have writable : ∀ e ∈ takenKeyTable, Writable e.opcode := by decide +kernel
  have refused := ((registration_exact takenKeyTable []).2.2 writable _).1.mpr
    ⟨takenKeyTable.take 2, _, _, rfl, (ofEntries_eq_ok_iff.mp built).1,
      .duplicateKey (by decide) ⟨.ofWord "LDR" .one 1, by decide, rfl⟩⟩
  exact ⟨⟨_, t, built, tables, atIn.1, atIn.2, (absent _).1.mp rfl, decoded⟩, refused⟩

end Registry

end WordAssembler
