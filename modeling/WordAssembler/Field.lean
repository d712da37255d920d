import WordAssembler.Word

namespace WordAssembler

/-- A place in an instruction word: the index of its last bit, which weighs
least, and how many bits it takes. -/
structure Slot where
  last : Nat
  width : Nat
  deriving DecidableEq, Repr

def Slot.first (s : Slot) : Nat :=
  s.last + 1 - s.width

def Slot.read {limit : Option Nat} (s : Slot) (b : Bits limit) : Nat :=
  b.slice s.first s.width

/-- Sets the bits of a slot where the low bits of a number are set. -/
def Slot.write [Machine] {limit : Option Nat} (s : Slot) (value : Int) (b : Bits limit) :
    Bits.Edited limit :=
  b.imprint value s.width s.last

/-- What an instruction may name besides its operation. -/
inductive Field
  | register
  | indexRegister
  | address
  | indirection
  | registerX
  | registerY
  | count
  | leftRight
  | arithmeticLogical
  | device
  deriving DecidableEq, Repr

namespace Field

def slot : Field → Slot
  | .register | .registerX => ⟨7, 2⟩
  | .indexRegister | .registerY => ⟨9, 2⟩
  | .address => ⟨17, 7⟩
  | .indirection => ⟨10, 1⟩
  | .count => ⟨17, 4⟩
  | .leftRight => ⟨9, 1⟩
  | .arithmeticLogical => ⟨8, 1⟩
  | .device => ⟨17, 5⟩

/-- The name of a field in messages about a line. -/
def label : Field → String
  | .register => "R"
  | .indexRegister => "IX"
  | .address => "ADDR"
  | .indirection => "I"
  | .registerX => "RX"
  | .registerY => "RY"
  | .count => "COUNT"
  | .leftRight => "L/R"
  | .arithmeticLogical => "A/L"
  | .device => "DEVID"

/-- The name of a field of a decoded word. -/
def name : Field → String
  | .register => "r"
  | .indexRegister => "ix"
  | .address => "address"
  | .indirection => "i"
  | .registerX => "rx"
  | .registerY => "ry"
  | .count => "count"
  | .leftRight => "lr"
  | .arithmeticLogical => "al"
  | .device => "devid"

end Field

/-- The place of the operation code in every instruction word. -/
def opcodeSlot : Slot := ⟨5, 6⟩

/-- The value of every field of an instruction. A field that the instruction
does not have is zero. -/
abbrev Operands := Field → Int

def Operands.none : Operands := fun _ => 0

def Operands.put (operands : Operands) (field : Field) (value : Int) : Operands :=
  fun f => if f = field then value else operands f

end WordAssembler
