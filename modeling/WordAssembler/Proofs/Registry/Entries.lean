import WordAssembler.Proofs.Bits.Fits
import WordAssembler.Registry.Basic

namespace WordAssembler

section Distinct

variable {α κ : Type} {key : α → κ} {items others : List α}

theorem distinct_of_perm (same : items.Perm others)
    (distinct : items.Pairwise fun a b => key a ≠ key b) :
    others.Pairwise fun a b => key a ≠ key b :=
  (same.pairwise_iff Ne.symm).mp distinct

variable [BEq κ] [LawfulBEq κ]

/-- If the items of a list have distinct keys, a look-up finds an item by its key
wherever the item stands. -/
theorem find?_beq_eq_some_iff (distinct : items.Pairwise fun a b => key a ≠ key b) {k : κ}
    {item : α} : items.find? (key · == k) = some item ↔ item ∈ items ∧ key item = k := by
  constructor
  · intro found
    exact ⟨List.mem_of_find?_eq_some found, by simpa using List.find?_some found⟩
  · rintro ⟨member, rfl⟩
    obtain ⟨before, after, split⟩ := List.append_of_mem member
    rw [split, List.pairwise_append] at distinct
    refine List.find?_eq_some_iff_append.mpr ⟨by simp, before, after, split, fun i inBefore => ?_⟩
    simpa using distinct.2.2 i inBefore item (List.mem_cons_self ..)

/-- A look-up by distinct keys does not depend on the order of the list. -/
theorem find?_beq_of_perm (same : items.Perm others)
    (distinct : items.Pairwise fun a b => key a ≠ key b) (k : κ) :
    items.find? (key · == k) = others.find? (key · == k) := by
  refine Option.ext fun item => ?_
  rw [find?_beq_eq_some_iff distinct, find?_beq_eq_some_iff (distinct_of_perm same distinct),
    same.mem_iff]

end Distinct

/-- What holds of all entries of a table that was built without a fault. -/
structure WellFormed (entries : List Entry) : Prop where
  keyLength : ∀ e ∈ entries, 2 ≤ e.key.length ∧ e.key.length ≤ 3
  distinct : entries.Pairwise fun a b => a.key ≠ b.key
  opcodeRange : ∀ e ∈ entries, 0 ≤ e.opcode ∧ e.opcode < 2 ^ opcodeSlot.width

theorem wellFormed_nil : WellFormed [] :=
  ⟨by simp, .nil, by simp⟩

theorem wellFormed_cons_iff {entry : Entry} {rest : List Entry} :
    WellFormed (entry :: rest) ↔
      (2 ≤ entry.key.length ∧ entry.key.length ≤ 3) ∧
      (∀ e ∈ rest, entry.key ≠ e.key) ∧
      (0 ≤ entry.opcode ∧ entry.opcode < 2 ^ opcodeSlot.width) ∧ WellFormed rest := by
  constructor
  · rintro ⟨lengths, distinct, range⟩
    have parts := List.pairwise_cons.mp distinct
    rw [List.forall_mem_cons] at lengths range
    exact ⟨lengths.1, parts.1, range.1, lengths.2, parts.2, range.2⟩
  · rintro ⟨length, new, range, rest⟩
    exact ⟨List.forall_mem_cons.mpr ⟨length, rest.keyLength⟩,
      List.pairwise_cons.mpr ⟨new, rest.distinct⟩,
      List.forall_mem_cons.mpr ⟨range, rest.opcodeRange⟩⟩

/-- The rules of a table do not speak of its order. -/
theorem WellFormed.perm {entries permuted : List Entry} (wellFormed : WellFormed entries)
    (same : entries.Perm permuted) : WellFormed permuted where
  keyLength e member := wellFormed.keyLength e (same.mem_iff.mpr member)
  distinct := distinct_of_perm same wellFormed.distinct
  opcodeRange e member := wellFormed.opcodeRange e (same.mem_iff.mpr member)

theorem WellFormed.sublist {entries kept : List Entry} (wellFormed : WellFormed entries)
    (part : kept.Sublist entries) : WellFormed kept where
  keyLength e member := wellFormed.keyLength e (part.mem member)
  distinct := wellFormed.distinct.sublist part
  opcodeRange e member := wellFormed.opcodeRange e (part.mem member)

namespace Registry

section Building

variable [Machine]

theorem opcodeSlot_width_le_lastExponent : opcodeSlot.width ≤ lastExponent := by
  have short : opcodeSlot.width ≤ 30 := by decide
  exact short.trans thirty_le_lastExponent

theorem checkFits_opcode_eq_ok_iff {opcode checked : Int} :
    checkFits opcode opcodeSlot.width false = .ok checked ↔
      (0 ≤ opcode ∧ opcode < 2 ^ opcodeSlot.width) ∧ checked = opcode :=
  checkFits_unsigned_eq_ok_iff opcodeSlot_width_le_lastExponent

theorem checkEntry_eq_ok_iff {before : List Entry} {entry : Entry} :
    checkEntry before entry = .ok () ↔
      (2 ≤ entry.key.length ∧ entry.key.length ≤ 3) ∧
      (∀ e ∈ before, e.key ≠ entry.key) ∧
      (0 ≤ entry.opcode ∧ entry.opcode < 2 ^ opcodeSlot.width) := by
  have used : (before.any (·.key == entry.key)) ↔ ¬ ∀ e ∈ before, e.key ≠ entry.key := by
    simp only [List.any_eq_true, beq_iff_eq, not_forall, not_not, exists_prop]
  unfold checkEntry
  by_cases wrongLength : entry.key.length < 2 ∨ 3 < entry.key.length
  · simp only [if_pos wrongLength, reduceCtorEq, false_iff]
    omega
  · have length : 2 ≤ entry.key.length ∧ entry.key.length ≤ 3 := by omega
    by_cases new : ∀ e ∈ before, e.key ≠ entry.key
    · rw [if_neg wrongLength, if_neg (by rw [used, not_not]; exact new)]
      split
      · rename_i fits
        exact ⟨fun _ => ⟨length, new, (checkFits_opcode_eq_ok_iff.mp fits).1⟩, fun _ => rfl⟩
      · rename_i refused
        constructor
        · intro impossible
          cases impossible
        · intro ⟨_, _, range⟩
          rw [checkFits_opcode_eq_ok_iff.mpr ⟨range, rfl⟩] at refused
          cases refused
    · rw [if_neg wrongLength, if_pos (used.mpr new)]
      simp only [reduceCtorEq, new, false_and, and_false]

theorem checkEntries_eq_ok_iff {before rest : List Entry} :
    checkEntries before rest = .ok () ↔
      WellFormed rest ∧ ∀ b ∈ before, ∀ e ∈ rest, b.key ≠ e.key := by
  induction rest generalizing before with
  | nil => simp [checkEntries, wellFormed_nil]
  | cons entry rest ih =>
    rw [checkEntries, bind_eq_ok_iff, wellFormed_cons_iff]
    simp only [ih, List.forall_mem_cons]
    constructor
    · rintro ⟨_, accepted, rest, fresh, later⟩
      obtain ⟨length, new, range⟩ := checkEntry_eq_ok_iff.mp accepted
      exact ⟨⟨length, fresh, range, rest⟩, fun b member => ⟨new b member, later b member⟩⟩
    · rintro ⟨⟨length, fresh, range, rest⟩, later⟩
      have accepted := checkEntry_eq_ok_iff.mpr
        ⟨length, fun b member => (later b member).1, range⟩
      exact ⟨(), accepted, rest, fresh, fun b member => (later b member).2⟩

theorem ofEntries_eq_ok_iff {entries : List Entry} {flags : List Json} {r : Registry} :
    ofEntries entries flags = .ok r ↔ WellFormed entries ∧ r = ⟨entries, flags⟩ := by
  rw [ofEntries, bind_eq_ok_iff]
  constructor
  · rintro ⟨_, checked, equal⟩
    cases equal
    exact ⟨(checkEntries_eq_ok_iff.mp checked).1, rfl⟩
  · rintro ⟨wellFormed, rfl⟩
    exact ⟨(), checkEntries_eq_ok_iff.mpr ⟨wellFormed, by simp⟩, rfl⟩

theorem ofEntries_wellFormed {entries : List Entry} {flags : List Json} {r : Registry}
    (built : ofEntries entries flags = .ok r) : WellFormed r.entries := by
  obtain ⟨wellFormed, rfl⟩ := ofEntries_eq_ok_iff.mp built
  exact wellFormed

/-- The standard table keeps the rules that are checked where a table is built. -/
theorem ofEntries_standardEntries : ofEntries standardEntries defaultFlags = .ok .standard := by
  refine ofEntries_eq_ok_iff.mpr ⟨⟨?_, ?_, ?_⟩, rfl⟩ <;> decide

end Building

/-- As keys are distinct, the first entry of a key is the only one. -/
theorem find?_eq_some_iff {r : Registry} (wellFormed : WellFormed r.entries) {key : Text}
    {entry : Entry} : r.find? key = some entry ↔ entry ∈ r.entries ∧ entry.key = key :=
  find?_beq_eq_some_iff wellFormed.distinct

theorem find?_opcode_range {r : Registry} (wellFormed : WellFormed r.entries) {key : Text}
    {entry : Entry} (found : r.find? key = some entry) :
    0 ≤ entry.opcode ∧ entry.opcode < 2 ^ opcodeSlot.width :=
  wellFormed.opcodeRange entry (List.mem_of_find?_eq_some found)

/-- If a key is the first one with its operation code, a look-up by that code
leads back to the entry of the key. -/
theorem findOpcode?_of_first {r : Registry} (wellFormed : WellFormed r.entries)
    {key : Text} {entry : Entry} (found : r.find? key = some entry)
    (first : (r.findOpcode? entry.opcode).map (·.key) = some key) :
    r.findOpcode? entry.opcode = some entry := by
  obtain ⟨other, atOpcode, sameKey⟩ := Option.map_eq_some_iff.mp first
  have member := List.mem_of_find?_eq_some atOpcode
  have again := (find?_eq_some_iff wellFormed).mpr ⟨member, sameKey⟩
  rw [found] at again
  rw [atOpcode, Option.some.inj again]

end Registry

end WordAssembler
