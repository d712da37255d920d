import WordAssembler.Proofs.Instruction.Trimmed
import WordAssembler.Proofs.Source.RoundTrip

namespace WordAssembler

theorem mnemonicKey_of_startsWithIn {line : List Char} (starts : ['I', 'N'] <+: line) :
    mnemonicKey line = ['I', 'N'] := by
  obtain ⟨rest, rfl⟩ := starts
  rfl

/-- A line is looked up by a key that leaves room behind it, or by all that it holds. -/
theorem selectable_or_bareMnemonic (line : List Char) :
    Selectable (mnemonicKey line) ∨ BareMnemonic line := by
  rw [selectable_ofChars_iff]
  by_cases starts : ['I', 'N'] <+: line
  · exact Or.inl (Or.inl (mnemonicKey_of_startsWithIn starts))
  · have taken : mnemonicKey line = line.take 3 := by
      rw [mnemonicKey, if_neg (by rwa [List.isPrefixOf_iff_prefix])]
    by_cases long : 3 ≤ line.length
    · refine Or.inl (Or.inr ⟨?_, fun inKey => starts ?_⟩)
      · rw [taken, List.length_take, Nat.min_eq_left long]
      · rw [taken] at inKey
        exact inKey.trans (List.take_prefix 3 line)
    · refine Or.inr ⟨[], ?_, by simp⟩
      rw [taken, List.take_of_length_le (by omega), List.append_nil]

theorem selectable_of_encoded [Machine] {r : Registry} {line : List Char} {w : Word}
    (encoded : encodeLine r line = .ok w) : Selectable (mnemonicKey line) := by
  rcases selectable_or_bareMnemonic line with selectable | bare
  · exact selectable
  · obtain ⟨e, failed⟩ := bare.exists_reported r
    rw [failed] at encoded
    cases encoded

/-- The statement of a mnemonic in which all operands are zero. -/
def zeroStatement (key : List Char) (format : Format) (opcode : Int) : Statement :=
  ⟨key, format, opcode, fun _ => 0, false⟩

/-- With zeros for operands, every format has a line that gives a word. -/
theorem exists_encoded [Machine] {r : Registry} (wellFormed : WellFormed r.entries) {entry : Entry}
    (registered : entry ∈ r.entries) {key : List Char} (named : entry.key = key)
    (selectable : Selectable key) (noComma : ',' ∉ key) :
    ∃ line w, mnemonicKey line = key ∧ encodeLine r line = .ok w := by
  have itself : (zeroStatement key entry.format entry.opcode).entry = entry := by
    rw [Statement.entry, zeroStatement, ← named]
  have encodable : (zeroStatement key entry.format entry.opcode).Encodable r :=
    ⟨itself ▸ registered, selectable, noComma, fun field _ => Nat.two_pow_pos _⟩
  exact ⟨_, _, Statement.mnemonicKey_text selectable,
    Statement.encodeLine_text wellFormed encodable⟩

/-- The entries of a table without those that no line can be looked up by and still
have operands. -/
def selectableEntries (entries : List Entry) : List Entry :=
  entries.filter fun entry => Selectable entry.key

theorem find?_selectableEntries {entries : List Entry} {flags : List Json} {key : Text}
    (selectable : Selectable key) :
    Registry.find? ⟨selectableEntries entries, flags⟩ key =
      Registry.find? ⟨entries, flags⟩ key := by
  have same : (fun entry : Entry => decide (decide (Selectable entry.key) ∧ entry.key == key)) =
      fun entry => entry.key == key := by
    funext entry
    rw [Bool.eq_iff_iff]
    simp only [decide_eq_true_eq, beq_iff_eq]
    exact ⟨And.right, fun isKey => ⟨isKey ▸ selectable, isKey⟩⟩
  rw [Registry.find?, Registry.find?, selectableEntries, List.find?_filter, same]

/-- Without the entries that are not selectable a line may be reported otherwise, and
nothing else changes. -/
theorem encodeLine_selectableEntries [Machine] (entries : List Entry) (flags : List Json)
    (line : List Char) :
    (∀ w, encodeLine ⟨selectableEntries entries, flags⟩ line = .ok w ↔
      encodeLine ⟨entries, flags⟩ line = .ok w) ∧
    ∀ count, encodeLine ⟨selectableEntries entries, flags⟩ line = .error (.tooManyDigits count) ↔
      encodeLine ⟨entries, flags⟩ line = .error (.tooManyDigits count) := by
  rcases selectable_or_bareMnemonic line with selectable | bare
  · rw [encodeLine_congr (find?_selectableEntries selectable)]
    exact ⟨fun _ => Iff.rfl, fun _ => Iff.rfl⟩
  · obtain ⟨e, failed⟩ := bare.exists_reported ⟨selectableEntries entries, flags⟩
    obtain ⟨f, failedBefore⟩ := bare.exists_reported ⟨entries, flags⟩
    rw [failed, failedBefore]
    simp

/-- Of the registered mnemonics that consist of characters, as lines do, one without a comma is of
use if and only if it is `IN`, or has three characters and does not start so. All entries of other
mnemonics can be removed: the same lines give words, and the same words. A line that starts with a
longer mnemonic in `IN` gives the word of the entry of `IN`, or none. -/
theorem encodable_iff_selectable [Machine] {entries : List Entry} {flags : List Json} {r : Registry}
    (built : Registry.ofEntries entries flags = .ok r) :
    (∀ entry ∈ r.entries, ∀ key : List Char, entry.key = key → ',' ∉ key →
      ((∃ line w, mnemonicKey line = key ∧ encodeLine r line = .ok w) ↔
        key = ['I', 'N'] ∨ key.length = 3 ∧ ¬ ['I', 'N'] <+: key)) ∧
    (∃ kept, Registry.ofEntries (selectableEntries entries) flags = .ok kept ∧
      ∀ line, (∀ w, encodeLine kept line = .ok w ↔ encodeLine r line = .ok w) ∧
        ∀ count, encodeLine kept line = .error (.tooManyDigits count) ↔
          encodeLine r line = .error (.tooManyDigits count)) ∧
    ∀ key line : List Char, ['I', 'N'] <+: key → key <+: line →
      (∃ fault, encodeLine r line = .error fault) ∨
        ∃ entry operands, r.find? (Text.ofChars ['I', 'N']) = some entry ∧
          readOperands line entry.format ['I', 'N'] = .ok operands ∧
          encodeLine r line =
            .ok (Instruction.word ⟨['I', 'N'], entry.format, entry.opcode, operands⟩) := by
  obtain ⟨wellFormed, rfl⟩ := Registry.ofEntries_eq_ok_iff.mp built
  refine ⟨fun entry registered key named noComma => ?_, ?_, fun key line inKey inLine => ?_⟩
  · rw [← selectable_ofChars_iff]
    constructor
    · rintro ⟨line, w, rfl, encoded⟩
      exact selectable_of_encoded encoded
    · intro selectable
      exact exists_encoded wellFormed registered named selectable noComma
  · have accepted := wellFormed.sublist (List.filter_sublist (p := fun e => Selectable e.key))
    exact ⟨_, Registry.ofEntries_eq_ok_iff.mpr ⟨accepted, rfl⟩,
      encodeLine_selectableEntries entries flags⟩
  · have key := mnemonicKey_of_startsWithIn (inKey.trans inLine)
    cases given : encodeLine ⟨entries, flags⟩ line with
    | error fault => exact Or.inl ⟨fault, rfl⟩
    | ok w =>
      obtain ⟨i, atLine, rfl⟩ := map_eq_ok_iff.mp given
      obtain ⟨entry, operands, found, operandsRead, rfl⟩ := Instruction.read_eq_ok_iff.mp atLine
      rw [key] at found operandsRead
      exact Or.inr ⟨entry, operands, found, operandsRead, by rw [key]⟩

/-- Of these mnemonics the first two are dead: one is too short for a line with operands,
the other starts like the third. -/
def shadowedTable : List Entry :=
  [.ofWord "JZ" .one 8, .ofWord "INC" .six 16, .ofWord "IN" .eight 49, .ofWord "LDR" .one 1]

theorem encodable_iff_selectable_shadowedTable :
    (¬ ∃ line w, mnemonicKey line = "JZ".toList ∧
      encodeLine ⟨shadowedTable, []⟩ line = .ok w) ∧
    (¬ ∃ line w, mnemonicKey line = "INC".toList ∧
      encodeLine ⟨shadowedTable, []⟩ line = .ok w) ∧
    (∃ line w, mnemonicKey line = "LDR".toList ∧
      encodeLine ⟨shadowedTable, []⟩ line = .ok w) ∧
    (∃ kept, Registry.ofEntries [.ofWord "IN" .eight 49, .ofWord "LDR" .one 1] [] = .ok kept ∧
      ∀ line w, encodeLine kept line = .ok w ↔ encodeLine ⟨shadowedTable, []⟩ line = .ok w) ∧
    ((∃ fault, encodeLine ⟨shadowedTable, []⟩ "INC 1,2".toList = .error fault) ∨
      ∃ entry operands, Registry.find? ⟨shadowedTable, []⟩ (Text.ofChars ['I', 'N']) = some entry ∧
        readOperands "INC 1,2".toList entry.format ['I', 'N'] = .ok operands ∧
        encodeLine ⟨shadowedTable, []⟩ "INC 1,2".toList =
          .ok (Instruction.word ⟨['I', 'N'], entry.format, entry.opcode, operands⟩)) := by
  have built : Registry.ofEntries shadowedTable [] = .ok ⟨shadowedTable, []⟩ := rfl
  obtain ⟨used, ⟨kept, accepted, same⟩, shadowed⟩ := encodable_iff_selectable built
  refine ⟨?_, ?_, ?_, ⟨kept, accepted, fun line => (same line).1⟩,
    shadowed "INC".toList _ (by decide) (by decide)⟩
  · exact fun found => absurd ((used (.ofWord "JZ" .one 8) (by decide) _ rfl (by decide)).mp found)
      (by decide)
  · exact fun found => absurd ((used (.ofWord "INC" .six 16) (by decide) _ rfl (by decide)).mp found)
      (by decide)
  · exact (used (.ofWord "LDR" .one 1) (by decide) _ rfl (by decide)).mpr (by decide)

end WordAssembler
