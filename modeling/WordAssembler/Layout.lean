import WordAssembler.Field

namespace WordAssembler

/-- The arrangements of fields in an instruction word. -/
inductive Layout
  | loadStore
  | registerPair
  | shift
  | inputOutput
  deriving DecidableEq, Repr

namespace Layout

def fields : Layout → List Field
  | .loadStore => [.register, .indexRegister, .indirection, .address]
  | .registerPair => [.registerX, .registerY]
  | .shift => [.register, .arithmeticLogical, .leftRight, .count]
  | .inputOutput => [.register, .device]

/-- The name of a layout in a decoded word. -/
def name : Layout → String
  | .loadStore => "LS"
  | .registerPair => "XY"
  | .shift => "SHIFT"
  | .inputOutput => "IO"

/-- The fields of a layout as they are logged, with their names there. -/
def loggedFields : Layout → List (String × Field)
  | .loadStore =>
    [("R", .register), ("X", .indexRegister), ("I", .indirection), ("ADDR", .address)]
  | .registerPair => [("RX", .registerX), ("RY", .registerY)]
  | .shift =>
    [("R", .register), ("COUNT", .count), ("LR", .leftRight), ("AL", .arithmeticLogical)]
  | .inputOutput => [("R", .register), ("DEVID", .device)]

/-- Sets the bits of an operation code and of the fields of a layout. Of every
value the low bits are kept that its slot holds; no bit is cleared. -/
def write [Machine] {limit : Option Nat} (layout : Layout) (opcode : Int) (operands : Operands)
    (b : Bits limit) : Bits.Edited limit :=
  layout.fields.foldl (fun done field => done.andThen (field.slot.write (operands field)))
    (opcodeSlot.write opcode b)

def read {limit : Option Nat} (layout : Layout) (b : Bits limit) : List (Field × Nat) :=
  layout.fields.map fun field => (field, field.slot.read b)

end Layout

inductive Edit
  | set (index : Int) (value : Bool)
  | clear
  | flip (start stop : Int)
  | imprint (source count last : Int)
  | resize {limit : Option Nat} (source : Bits limit) (sourceWidth width : Int)
  | resizeSelf (sourceWidth width : Int)
  | write (layout : Layout) (opcode : Int) (operands : Operands)

/-- Makes a change. Where one is refused half way, what was done before stays. -/
def Edit.apply [Machine] {limit : Option Nat} (b : Bits limit) : Edit → Bits.Edited limit
  | .set index value => b.edited (b.set index value)
  | .clear => ⟨Bits.blank, none⟩
  | .flip start stop => b.edited (b.flip start stop)
  | .imprint source count last => b.imprint source count last
  | .resize source sourceWidth width => source.resize sourceWidth b width
  | .resizeSelf sourceWidth width => b.resizeSelf sourceWidth width
  | .write layout opcode operands => layout.write opcode operands b

end WordAssembler
