import WordAssembler.Proofs.Instruction.Decoded
import WordAssembler.Proofs.Layout.ClosedForm
import WordAssembler.Proofs.Word.Conversion

namespace WordAssembler

namespace Slot

/-- Every slot that lies inside a word can be read. -/
theorem sliceTo_eq_read {s : Slot} (fits : s.Fits) (w : Word) :
    w.sliceTo s.last s.width = .ok (s.read w) := by
  obtain ⟨room, inside⟩ := fits
  have admitted : ¬ ((s.last : Int) - s.width + 1 < 0 ∨ (wordWidth : Int) ≤ s.last) := by omega
  have start : ((s.last : Int) - s.width + 1).toNat = s.first := by
    unfold first
    omega
  rw [Word.sliceTo, if_neg admitted, start, Int.toNat_natCast]
  rfl

theorem integerBit_read {s : Slot} (fits : s.Fits) (w : Word) {j : Nat} (covers : s.Covers j) :
    integerBit (s.read w) (s.last - j) = w.bit j := by
  obtain ⟨before, inside⟩ := covers
  have back : s.last - (s.last - j) = j := by omega
  rw [integerBit_natCast, testBit_read fits, decide_eq_true inside, Bool.true_and, back]

theorem read_congr {s : Slot} (fits : s.Fits) {v w : Word}
    (same : ∀ j, s.Covers j → v.bit j = w.bit j) : s.read v = s.read w := by
  refine Nat.eq_of_testBit_eq fun i => ?_
  rw [testBit_read fits, testBit_read fits]
  by_cases inside : i < s.width
  · rw [same _ (covers_of_lt fits inside)]
  · rw [decide_eq_false inside, Bool.false_and, Bool.false_and]

end Slot

/-- The operands of a list of values. A field that is not in the list is zero. -/
def Operands.ofValues (values : List (Field × Nat)) : Operands :=
  fun field => ((values.lookup field).getD 0 : Nat)

namespace Layout

/-- The indices of a word that a layout has no slot for. -/
def unused : Layout → List Nat
  | .loadStore => []
  | .registerPair => List.range' 10 8
  | .shift => List.range' 10 4
  | .inputOutput => List.range' 8 5

/-- The indices of a word are divided between the slots of a layout and those that it leaves. -/
theorem mem_unused_iff {layout : Layout} {opcode : Int} {operands : Operands} {j : Nat}
    (inside : j < wordWidth) :
    j ∈ layout.unused ↔ ∀ p ∈ layout.placed opcode operands, ¬ p.1.Covers j := by
  have divided : ∀ j < wordWidth, j ∈ layout.unused ↔
      ¬ opcodeSlot.Covers j ∧ ∀ field ∈ layout.fields, ¬ field.slot.Covers j := by
    cases layout <;> decide
  rw [divided j inside, placed, List.forall_mem_cons, List.forall_mem_map]

theorem ofValues_read {layout : Layout} {field : Field} (member : field ∈ layout.fields) (w : Word) :
    Operands.ofValues (layout.read w) field = field.slot.read w := by
  rw [Operands.ofValues, read, List.lookup_graph (fun field : Field => field.slot.read w) member]
  rfl

/-- What a layout reads from a word, written into a blank one. -/
def reencode [Machine] (layout : Layout) (w : Word) : Bits.Edited (some wordWidth) :=
  layout.write (opcodeSlot.read w) (Operands.ofValues (layout.read w)) Bits.blank

variable (layout : Layout) (w : Word)

theorem placed_read {s : Slot} {value : Int}
    (member : (s, value) ∈ layout.placed (opcodeSlot.read w) (Operands.ofValues (layout.read w))) :
    value = s.read w := by
  rcases List.mem_cons.mp member with equal | inFields
  · cases equal
    rfl
  · obtain ⟨field, inLayout, equal⟩ := List.mem_map.mp inFields
    cases equal
    exact ofValues_read inLayout w

theorem bit_reencode_of_covers [Machine] {s : Slot} {value : Int} {j : Nat} (covers : s.Covers j)
    (member : (s, value) ∈ layout.placed (opcodeSlot.read w) (Operands.ofValues (layout.read w))) :
    (layout.reencode w).bits.bit j = w.bit j := by
  have fits : s.Fits := layout.placed_fit _ _ _ member
  have value := layout.placed_read w member
  rw [reencode, (layout.write_sets _ _ Bits.blank).bit, Bits.bit_blank, Bool.false_or,
    Slot.anyCarries_of_covers (layout.placed_apart _ _) member covers, value,
    Slot.integerBit_read fits w covers]

/-- What the slots of a layout held comes back to its place, and everything else is clear. -/
theorem bit_reencode [Machine] (j : Nat) :
    (layout.reencode w).bits.bit j =
      (decide (j < wordWidth ∧ j ∉ layout.unused) && w.bit j) := by
  by_cases outside : ∀ p ∈ layout.placed (opcodeSlot.read w) (Operands.ofValues (layout.read w)),
      ¬ p.1.Covers j
  · have none : ¬ (j < wordWidth ∧ j ∉ layout.unused) := by
      rintro ⟨inside, inSlot⟩
      exact inSlot ((mem_unused_iff inside).mpr outside)
    rw [reencode, bit_write_blank_of_not_covers outside, decide_eq_false none, Bool.false_and]
  · obtain ⟨⟨s, value⟩, member, covers⟩ : ∃ p ∈ layout.placed (opcodeSlot.read w)
        (Operands.ofValues (layout.read w)), p.1.Covers j := by
      simpa only [not_forall, not_not, exists_prop] using outside
    have fits : s.Fits := layout.placed_fit _ _ _ member
    have inside : j < wordWidth := by
      have last : s.last < wordWidth := fits.2
      have before : j ≤ s.last := covers.1
      omega
    have inSlot : j ∉ layout.unused := fun unused => outside ((mem_unused_iff inside).mp unused)
    rw [layout.bit_reencode_of_covers w covers member, decide_eq_true ⟨inside, inSlot⟩,
      Bool.true_and]

theorem read_reencode [Machine] {s : Slot} {value : Int}
    (member : (s, value) ∈ layout.placed (opcodeSlot.read w) (Operands.ofValues (layout.read w))) :
    s.read (layout.reencode w).bits = s.read w :=
  Slot.read_congr (layout.placed_fit _ _ _ member) fun _ covers =>
    layout.bit_reencode_of_covers w covers member

theorem opcode_reencode [Machine] : opcodeSlot.read (layout.reencode w).bits = opcodeSlot.read w :=
  layout.read_reencode w opcode_mem_placed

theorem fields_reencode [Machine] : layout.read (layout.reencode w).bits = layout.read w := by
  refine List.map_congr_left fun field member => ?_
  rw [layout.read_reencode w (field_mem_placed member)]

end Layout

/-- The operation code of a word is what is left of it above its twelve lowest bits. -/
theorem Word.opcode_eq_div (w : Word) : opcodeSlot.read w = w.toNat / 2 ^ 12 := by
  refine Nat.eq_of_testBit_eq fun i => ?_
  show (w.slice 0 6).testBit i = _
  rw [Bits.testBit_slice, Nat.testBit_div_two_pow, testBit_toNat]
  by_cases inside : i < 6
  · have place : 0 + (6 - 1 - i) = wordWidth - 1 - (i + 12) := by
      unfold wordWidth
      omega
    have below : i + 12 < wordWidth := by
      unfold wordWidth
      omega
    rw [decide_eq_true inside, decide_eq_true below, place]
  · have beyond : ¬ i + 12 < wordWidth := by
      unfold wordWidth
      omega
    rw [decide_eq_false inside, decide_eq_false beyond, Bool.false_and, Bool.false_and]

namespace Decoded

variable {r : Registry} {w : Word}

theorem ofWord_of_registered {entry : Entry}
    (found : r.findOpcode? (opcodeSlot.read w) = some entry) :
    ofWord r w =
      .known (opcodeSlot.read w) entry.key.trim entry.format (entry.format.layout.read w) := by
  simp only [ofWord, found]

theorem ofWord_of_unregistered (missing : r.findOpcode? (opcodeSlot.read w) = none) :
    ofWord r w = .unknown (opcodeSlot.read w) w.toNat := by
  simp only [ofWord, missing]

theorem ofWord_reencode [Machine] {entry : Entry}
    (found : r.findOpcode? (opcodeSlot.read w) = some entry) :
    ofWord r (entry.format.layout.reencode w).bits = ofWord r w := by
  have again := entry.format.layout.opcode_reencode w
  rw [ofWord_of_registered found, ofWord_of_registered (again ▸ found), again,
    entry.format.layout.fields_reencode w]

end Decoded

theorem Registry.findOpcode?_eq_none_iff {r : Registry} {opcode : Int} :
    r.findOpcode? opcode = none ↔ ∀ entry ∈ r.entries, entry.opcode ≠ opcode := by
  simp only [findOpcode?, List.find?_eq_none, beq_iff_eq, ne_eq]

theorem Word.ofInt_emod (value : Int) : ofInt (value % 2 ^ wordWidth) = ofInt value := by
  have same : wordOf (value % 2 ^ wordWidth) = wordOf value := by
    have first := natCast_wordOf (value % 2 ^ wordWidth)
    have second := natCast_wordOf value
    rw [Int.emod_emod] at first
    omega
  rw [ofInt, ofInt, same]

/-- Every integer is decoded as its remainder in a word, and nothing that decoding looks up is ever
missing. If the operation code is registered, what was decoded writes the same word again, with only
the indices cleared that the layout has no slot for, and that word is decoded alike. If it is not
registered, the number is kept with its highest bits as the operation code. -/
theorem decoded_reencoded [Machine] {entries : List Entry} {flags : List Json} {r : Registry}
    (built : Registry.ofEntries entries flags = .ok r) (n : Int) :
    let number : Nat := (n % 2 ^ wordWidth).toNat
    let opcode : Nat := number / 2 ^ 12
    let w := Word.ofInt n
    w.toNat = number ∧
    (∀ s : Slot, (s = opcodeSlot ∨ ∃ field : Field, s = field.slot) →
      w.sliceTo s.last s.width = .ok (s.read w)) ∧
    Decoded.ofWord r w = Decoded.ofWord r (Word.ofInt (n % 2 ^ wordWidth)) ∧
    ((∃ entry ∈ r.entries, entry.opcode = opcode) →
      ∃ entry values again, r.findOpcode? opcode = some entry ∧ r.find? entry.key = some entry ∧
        Decoded.ofWord r w = .known opcode entry.key.trim entry.format values ∧
        entry.format.layout.write opcode (Operands.ofValues values) Bits.blank = ⟨again, none⟩ ∧
        (∀ j, again.bit j = (decide (j ∉ entry.format.layout.unused) && w.bit j)) ∧
        Decoded.ofWord r again = .known opcode entry.key.trim entry.format values) ∧
    ((∀ entry ∈ r.entries, entry.opcode ≠ opcode) →
      Decoded.ofWord r w = .unknown opcode number) := by
  intro number opcode w
  have value : w.toNat = number := by
    rw [Word.toNat_ofInt, ← Int.toNat_natCast (wordOf n), natCast_wordOf]
  have atOpcode : opcodeSlot.read w = opcode := by
    rw [w.opcode_eq_div, value]
  refine ⟨value, ?_, ?_, ?_, ?_⟩
  · rintro s (rfl | ⟨field, rfl⟩)
    · exact Slot.sliceTo_eq_read Layout.opcodeSlot_fits w
    · exact Slot.sliceTo_eq_read (Layout.field_slot_fits field) w
  · rw [Word.ofInt_emod]
  · rintro ⟨holder, registered, same⟩
    obtain ⟨entry, found⟩ : ∃ entry, r.findOpcode? opcode = some entry := by
      refine Option.ne_none_iff_exists'.mp fun missing => ?_
      exact Registry.findOpcode?_eq_none_iff.mp missing holder registered same
    have wellFormed := Registry.ofEntries_wellFormed built
    have byKey := (Registry.find?_eq_some_iff wellFormed).mpr ⟨List.mem_of_find?_eq_some found, rfl⟩
    rw [← atOpcode] at found ⊢
    have decoded := Decoded.ofWord_of_registered found
    have fault : (entry.format.layout.reencode w).fault = none :=
      (entry.format.layout.write_sets _ _ Bits.blank).fault
    refine ⟨entry, entry.format.layout.read w, (entry.format.layout.reencode w).bits, found, byKey,
      decoded, Bits.Edited.eq_of_fault fault, fun j => ?_, (Decoded.ofWord_reencode found).trans decoded⟩
    rw [Layout.bit_reencode]
    by_cases inside : j < wordWidth
    · rw [decide_eq_decide.mpr (and_iff_right inside)]
    · rw [Word.canonical_iff.mp (Word.canonical_ofInt n) j (by omega), Bool.and_false, Bool.and_false]
  · intro unregistered
    rw [← atOpcode] at unregistered
    rw [Decoded.ofWord_of_unregistered (Registry.findOpcode?_eq_none_iff.mpr unregistered), atOpcode,
      value]

/-- A shift with all bits set below its operation code, four of which no slot takes. -/
theorem decoded_reencoded_allOnes :
    Registry.ofEntries standardEntries Registry.defaultFlags = .ok .standard ∧
      (Word.ofInt (-155649)).bit 12 = true ∧
      Decoded.ofWord .standard (Word.ofInt (-155649)) = .known 25 "SRC".toList .seven
        [(.register, 3), (.arithmeticLogical, 1), (.leftRight, 1), (.count, 15)] ∧
      ∃ again, Layout.shift.write 25 (Operands.ofValues
          [(.register, 3), (.arithmeticLogical, 1), (.leftRight, 1), (.count, 15)])
            (Bits.blank : Word) = ⟨again, none⟩ ∧ again.bit 12 = false ∧
        Decoded.ofWord .standard again = Decoded.ofWord .standard (Word.ofInt (-155649)) := by
  have built := Registry.ofEntries_standardEntries
  have shown : Decoded.ofWord .standard (Word.ofInt (-155649)) = .known 25 "SRC".toList .seven
      [(.register, 3), (.arithmeticLogical, 1), (.leftRight, 1), (.count, 15)] := by
    decide +kernel
  obtain ⟨_, _, _, known, _⟩ := decoded_reencoded built (-155649)
  obtain ⟨entry, values, again, _, _, decoded, written, bits, same⟩ :=
    known ⟨.ofWord "SRC" .seven 25, by decide +kernel, by decide +kernel⟩
  obtain ⟨opcode, _, format, rfl⟩ := Decoded.known.inj (decoded.symm.trans shown)
  rw [opcode, format] at written
  have cleared : again.bit 12 = false := by
    rw [bits, format, decide_eq_false (by decide), Bool.false_and]
  exact ⟨built, by decide +kernel, shown, again, written, cleared, same.trans decoded.symm⟩

end WordAssembler
