import WordAssembler.Log
import WordAssembler.Operand
import WordAssembler.Registry.Basic

namespace WordAssembler

structure Instruction where
  key : List Char
  format : Format
  opcode : Int
  operands : Operands

/-- What a line is looked up by: `IN`, if it starts so, and three characters
otherwise, or the whole line if it is shorter. -/
def mnemonicKey (line : List Char) : List Char :=
  if ['I', 'N'].isPrefixOf line then line.take 2 else line.take 3

namespace Instruction

def read (r : Registry) (line : List Char) : Except LineFault Instruction :=
  let key := mnemonicKey line
  match r.find? key with
  | none => .error (.reported (.unknownOpcode key))
  | some entry => do
    let operands ← readOperands line entry.format key
    return ⟨key, entry.format, entry.opcode, operands⟩

/-- The word of an instruction, written into a blank one. -/
def word [Machine] (i : Instruction) : Word :=
  (i.format.layout.write i.opcode i.operands Bits.blank).bits

def logger : String := "isa18.packer"

def record (i : Instruction) : LogRecord :=
  let shown := i.format.layout.loggedFields.map fun (name, field) =>
    s!", {name} = {i.operands field}"
  ⟨.debug, logger, s!"Writing: opcode = {i.opcode}" ++ String.join shown⟩

end Instruction

def encodeLine [Machine] (r : Registry) (line : List Char) : Except LineFault Word :=
  Instruction.word <$> Instruction.read r line

def rejectionRecord (line : List Char) (e : LineError) : LogRecord :=
  ⟨.warning, Instruction.logger, s!"Illegal operation {quoted line}: {e.message}"⟩

/-- A word as it is decoded. One whose operation code is not registered is
kept as a number. -/
inductive Decoded
  | unknown (opcode raw : Nat)
  | known (opcode : Nat) (mnemonic : Text) (format : Format) (values : List (Field × Nat))
  deriving DecidableEq, Repr

/-- Decodes a word by the first entry with its operation code. -/
def Decoded.ofWord (r : Registry) (w : Word) : Decoded :=
  let opcode := opcodeSlot.read w
  match r.findOpcode? opcode with
  | none => .unknown opcode w.toNat
  | some entry => .known opcode (Text.trim entry.key) entry.format (entry.format.layout.read w)

end WordAssembler
