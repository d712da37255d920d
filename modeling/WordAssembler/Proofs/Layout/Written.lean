import WordAssembler.Instruction
import WordAssembler.Proofs.Layout.Slot

namespace WordAssembler

namespace Layout

/-- The slots of a layout, each with the number that is written into it. -/
def placed (layout : Layout) (opcode : Int) (operands : Operands) : List (Slot × Int) :=
  (opcodeSlot, opcode) :: layout.fields.map fun field => (field.slot, operands field)

theorem opcode_mem_placed {layout : Layout} {opcode : Int} {operands : Operands} :
    (opcodeSlot, opcode) ∈ layout.placed opcode operands :=
  List.mem_cons_self ..

theorem field_mem_placed {layout : Layout} {opcode : Int} {operands : Operands} {field : Field}
    (member : field ∈ layout.fields) :
    (field.slot, operands field) ∈ layout.placed opcode operands :=
  List.mem_cons_of_mem _ (List.mem_map_of_mem member)

theorem opcodeSlot_fits : opcodeSlot.Fits := by
  decide

theorem field_slot_fits (field : Field) : field.slot.Fits := by
  cases field <;> decide

theorem placed_fit (layout : Layout) (opcode : Int) (operands : Operands) :
    ∀ p ∈ layout.placed opcode operands, p.1.Fits := by
  intro p member
  rcases List.mem_cons.mp member with equal | inFields
  · cases equal
    exact opcodeSlot_fits
  · obtain ⟨field, _, rfl⟩ := List.mem_map.mp inFields
    exact field_slot_fits field

/-- No layout lets two of its slots overlap, whatever is written into them. -/
theorem placed_apart (layout : Layout) (opcode : Int) (operands : Operands) :
    (layout.placed opcode operands).Pairwise fun p q => p.1.Apart q.1 := by
  have slots : (opcodeSlot :: layout.fields.map Field.slot).Pairwise Slot.Apart := by
    cases layout <;> decide
  have same : (layout.placed opcode operands).map Prod.fst =
      opcodeSlot :: layout.fields.map Field.slot := by
    simp only [placed, List.map_cons, List.map_map, Function.comp_def]
  rwa [← same, List.pairwise_map] at slots

section

variable [Machine]

/-- A layout is written without a fault for numbers of any size and sign, and
only ever sets bits. -/
theorem write_sets (layout : Layout) (opcode : Int) (operands : Operands) (w : Word) :
    (layout.write opcode operands w).Sets w
      (Slot.anyCarries (layout.placed opcode operands)) := by
  have fit := layout.placed_fit opcode operands
  have first := Slot.write_sets opcodeSlot_fits opcode w
  have rest := Slot.writes_set (fun p member => fit p (List.mem_cons_of_mem _ member)) first
  rw [List.foldl_map] at rest
  refine rest.congr fun j => ?_
  simp only [placed, Slot.anyCarries, List.any_cons]

/-- A slot has what was in it before and the low bits of its own number, of any size and sign,
and nothing of the numbers in other slots. -/
theorem read_write {layout : Layout} {opcode : Int} {operands : Operands} {s : Slot} {value : Int}
    (member : (s, value) ∈ layout.placed opcode operands) (w : Word) :
    s.read (layout.write opcode operands w).bits = s.read w ||| (value % 2 ^ s.width).toNat := by
  have fits : s.Fits := layout.placed_fit opcode operands _ member
  refine (layout.write_sets opcode operands w).slice fun i inside => ?_
  have room := fits.1
  have place : s.first + (s.width - 1 - i) = s.last - i := by
    unfold Slot.first
    omega
  have back : s.last - (s.last - i) = i := by omega
  rw [place, Slot.anyCarries_of_covers (layout.placed_apart opcode operands) member
    (Slot.covers_of_lt fits inside), back]

/-- A slot of a layout that was written into a blank word holds the number put
there, reduced to the slot. -/
theorem read_write_blank {layout : Layout} {opcode : Int} {operands : Operands} {s : Slot}
    {value : Int} (member : (s, value) ∈ layout.placed opcode operands) :
    (s.read (layout.write opcode operands (Bits.blank : Word)).bits : Int) =
      value % 2 ^ s.width := by
  have positive : (0 : Int) < 2 ^ s.width := Int.pow_pos (by decide)
  rw [read_write member, Slot.read_blank (layout.placed_fit opcode operands _ member), Nat.zero_or,
    Int.toNat_of_nonneg (Int.emod_nonneg value positive.ne')]

theorem bit_write_blank_of_not_covers {layout : Layout} {opcode : Int} {operands : Operands}
    {j : Nat} (outside : ∀ p ∈ layout.placed opcode operands, ¬ p.1.Covers j) :
    (layout.write opcode operands (Bits.blank : Word)).bits.bit j = false := by
  rw [(layout.write_sets opcode operands Bits.blank).bit, Bits.bit_blank, Bool.false_or]
  exact Slot.anyCarries_of_not_covers outside

end

end Layout

namespace Instruction

variable [Machine]

/-- Nothing that an instruction writes into its word is ever refused. -/
theorem write_fault (i : Instruction) :
    (i.format.layout.write i.opcode i.operands (Bits.blank : Word)).fault = none :=
  (i.format.layout.write_sets i.opcode i.operands Bits.blank).fault

theorem opcode_read_word (i : Instruction) :
    (opcodeSlot.read i.word : Int) = i.opcode % 2 ^ opcodeSlot.width :=
  Layout.read_write_blank Layout.opcode_mem_placed

theorem field_read_word (i : Instruction) {field : Field}
    (member : field ∈ i.format.layout.fields) :
    (field.slot.read i.word : Int) = i.operands field % 2 ^ field.slot.width :=
  Layout.read_write_blank (Layout.field_mem_placed member)

/-- Outside the slots of its layout the word of an instruction is blank, also
beyond its last index. -/
theorem bit_word_of_not_covers (i : Instruction) {j : Nat} (opcode : ¬ opcodeSlot.Covers j)
    (fields : ∀ field ∈ i.format.layout.fields, ¬ field.slot.Covers j) :
    i.word.bit j = false := by
  refine Layout.bit_write_blank_of_not_covers fun p member => ?_
  rcases List.mem_cons.mp member with equal | inFields
  · cases equal
    exact opcode
  · obtain ⟨field, inLayout, rfl⟩ := List.mem_map.mp inFields
    exact fields field inLayout

end Instruction

end WordAssembler
