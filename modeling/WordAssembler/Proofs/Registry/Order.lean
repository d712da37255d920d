import WordAssembler.Proofs.Instruction.Decoded

namespace WordAssembler

namespace Registry

theorem find?_of_perm {r s : Registry} (wellFormed : WellFormed r.entries)
    (same : r.entries.Perm s.entries) (key : Text) : r.find? key = s.find? key :=
  find?_beq_of_perm same wellFormed.distinct key

/-- Where no operation code is shared, it does not matter which entry comes first. -/
theorem findOpcode?_of_perm {r s : Registry}
    (distinct : r.entries.Pairwise fun a b => a.opcode ≠ b.opcode)
    (same : r.entries.Perm s.entries) (opcode : Int) :
    r.findOpcode? opcode = s.findOpcode? opcode :=
  find?_beq_of_perm same distinct opcode

theorem find?_append_of_some {entries : List Entry} {flags : List Json} {key : Text}
    {entry : Entry} (found : find? ⟨entries, flags⟩ key = some entry) (added : List Entry) :
    find? ⟨entries ++ added, flags⟩ key = some entry := by
  unfold find? at found ⊢
  rw [List.find?_append, found, Option.some_or]

theorem findOpcode?_append_of_some {entries : List Entry} {flags : List Json} {opcode : Int}
    {entry : Entry} (found : findOpcode? ⟨entries, flags⟩ opcode = some entry)
    (added : List Entry) : findOpcode? ⟨entries ++ added, flags⟩ opcode = some entry := by
  unfold findOpcode? at found ⊢
  rw [List.find?_append, found, Option.some_or]

end Registry

theorem encodeLine_append [Machine] {entries : List Entry} {flags : List Json} {line : List Char}
    {w : Word} (encoded : encodeLine ⟨entries, flags⟩ line = .ok w) (added : List Entry) :
    encodeLine ⟨entries ++ added, flags⟩ line = .ok w := by
  obtain ⟨i, given, _⟩ := map_eq_ok_iff.mp encoded
  obtain ⟨entry, _, found, _⟩ := Instruction.read_eq_ok_iff.mp given
  have again := Registry.find?_append_of_some found added
  rw [encodeLine_congr (again.trans found.symm), encoded]

theorem Decoded.ofWord_append {entries : List Entry} {flags : List Json} {w : Word}
    (known : (Registry.findOpcode? ⟨entries, flags⟩ (opcodeSlot.read w)).isSome)
    (added : List Entry) :
    Decoded.ofWord ⟨entries ++ added, flags⟩ w = Decoded.ofWord ⟨entries, flags⟩ w := by
  obtain ⟨entry, found⟩ := Option.isSome_iff_exists.mp known
  have again := Registry.findOpcode?_append_of_some found added
  exact Decoded.ofWord_congr (again.trans found.symm)

/-- A table is accepted in any order, and every order encodes each line alike. In decoding,
the order shows only where entries share an operation code. Entries behind an accepted
table change neither a word that it gives nor the meaning of a word that it knows. -/
theorem table_order_and_growth [Machine] :
    (∀ (entries permuted : List Entry) (flags : List Json) (r : Registry),
      Registry.ofEntries entries flags = .ok r → entries.Perm permuted →
      ∃ s, Registry.ofEntries permuted flags = .ok s ∧
        (∀ line, encodeLine s line = encodeLine r line) ∧
        ((entries.Pairwise fun a b => a.opcode ≠ b.opcode) →
          ∀ w, Decoded.ofWord s w = Decoded.ofWord r w)) ∧
    ∀ (entries added : List Entry) (flags : List Json) (s : Registry),
      Registry.ofEntries (entries ++ added) flags = .ok s →
      ∃ r, Registry.ofEntries entries flags = .ok r ∧
        (∀ line w, encodeLine r line = .ok w → encodeLine s line = .ok w) ∧
        ∀ w, (r.findOpcode? (opcodeSlot.read w)).isSome →
          Decoded.ofWord s w = Decoded.ofWord r w := by
  constructor
  · intro entries permuted flags r built same
    obtain ⟨wellFormed, rfl⟩ := Registry.ofEntries_eq_ok_iff.mp built
    have accepted := wellFormed.perm same
    refine ⟨⟨permuted, flags⟩, Registry.ofEntries_eq_ok_iff.mpr ⟨accepted, rfl⟩, ?_, ?_⟩
    · intro line
      exact encodeLine_congr (Registry.find?_of_perm wellFormed same _).symm
    · intro distinct w
      exact Decoded.ofWord_congr (Registry.findOpcode?_of_perm distinct same _).symm
  · intro entries added flags s built
    obtain ⟨wellFormed, rfl⟩ := Registry.ofEntries_eq_ok_iff.mp built
    have accepted := wellFormed.sublist (List.sublist_append_left entries added)
    refine ⟨⟨entries, flags⟩, Registry.ofEntries_eq_ok_iff.mpr ⟨accepted, rfl⟩, ?_, ?_⟩
    · intro line w encoded
      exact encodeLine_append encoded added
    · intro w known
      exact Decoded.ofWord_append known added

/-- Two mnemonics with operation codes of their own. -/
def sumTable : List Entry :=
  [.ofWord "ADD" .one 1, .ofWord "SUB" .three 2]

/-- Another name for the first of them, with another format. -/
def sumSynonym : Entry :=
  .ofWord "PLS" .six 1

theorem table_order_and_growth_sumTable :
    (∃ s, Registry.ofEntries sumTable.reverse [] = .ok s ∧
      (∀ line, encodeLine s line = encodeLine ⟨sumTable, []⟩ line) ∧
      ∀ w, Decoded.ofWord s w = Decoded.ofWord ⟨sumTable, []⟩ w) ∧
    encodeLine ⟨sumTable ++ [sumSynonym], []⟩ "ADD 1,2,3".toList = .ok ⟨197024⟩ ∧
    Decoded.ofWord ⟨sumTable ++ [sumSynonym], []⟩ ⟨197024⟩ =
      .known 1 "ADD".toList .one
        [(.register, 1), (.indexRegister, 2), (.indirection, 0), (.address, 3)] := by
  have built : Registry.ofEntries sumTable [] = .ok ⟨sumTable, []⟩ := rfl
  have grown : Registry.ofEntries (sumTable ++ [sumSynonym]) [] =
      .ok ⟨sumTable ++ [sumSynonym], []⟩ := rfl
  have encoded : encodeLine ⟨sumTable, []⟩ "ADD 1,2,3".toList = .ok ⟨197024⟩ := by
    decide +kernel
  have known : (Registry.findOpcode? ⟨sumTable, []⟩ (opcodeSlot.read (⟨197024⟩ : Word))).isSome := by
    decide +kernel
  obtain ⟨s, accepted, lines, words⟩ := table_order_and_growth.1 sumTable sumTable.reverse [] _
    built (List.reverse_perm _).symm
  obtain ⟨r, first, later, meaning⟩ := table_order_and_growth.2 sumTable [sumSynonym] [] _ grown
  obtain rfl : (⟨sumTable, []⟩ : Registry) = r := Except.ok.inj (built.symm.trans first)
  refine ⟨⟨s, accepted, lines, words (by decide)⟩, later _ _ encoded, ?_⟩
  rw [meaning _ known]
  decide +kernel

end WordAssembler
