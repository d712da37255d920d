import WordAssembler.Fault
import WordAssembler.Text.Quoted

namespace WordAssembler

inductive OperandFault
  | absentAtColumn (column : Nat)
  | absentToken (index : Nat)
  | notANumber (text : List Char)
  | outOfRange (value : Int)
  deriving DecidableEq, Repr

/-- Columns are counted from one in messages. -/
def OperandFault.message : OperandFault → String
  | .absentAtColumn column => s!"missing operand at column {column + 1}"
  | .absentToken index => s!"missing operand {index}"
  | .notANumber text => s!"expected a number, got {quoted text}"
  | .outOfRange value => s!"{value} does not fit in a byte"

/-- What is wrong with a line: nothing is registered for what it starts with,
or an operand is at fault. The column is counted from zero, and there is none
where a whole operand is absent. -/
inductive LineError
  | unknownOpcode (key : List Char)
  | operand (name : String) (fault : OperandFault) (column : Option Int)
  deriving DecidableEq, Repr

namespace LineError

def kind : LineError → FaultKind
  | .unknownOpcode _ => .unknownOpcode
  | .operand .. => .malformedOperand

def message : LineError → String
  | .unknownOpcode key => s!"unknown opcode: {quoted (trim key)}"
  | .operand name fault _ => s!"{name}: {fault.message}"

/-- The column of an error. An unknown mnemonic is at fault from the start. -/
def column : LineError → Option Int
  | .unknownOpcode _ => some 0
  | .operand _ _ column => column

/-- An error in words, after its code. -/
def text (e : LineError) : String :=
  s!"[{e.kind.code}] {e.message}"

def faultClass (e : LineError) : FaultClass :=
  .encoding e.kind

end LineError

/-- Why a line gives no word: an error that is reported and passed over, or a
numeral of too many digits, which ends the work altogether. -/
inductive LineFault
  | reported (error : LineError)
  | tooManyDigits (count : Nat)
  deriving DecidableEq, Repr

namespace LineFault

def message : LineFault → String
  | .reported e => e.message
  | .tooManyDigits count => tooManyDigitsMessage count

def faultClass : LineFault → FaultClass
  | .reported e => e.faultClass
  | .tooManyDigits _ => .value

end LineFault

end WordAssembler
