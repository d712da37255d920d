namespace WordAssembler

/-- The kinds of faults in a program, with the codes of their reports. -/
inductive FaultKind
  | unknownOpcode
  | malformedOperand
  | widthOverflow
  deriving DecidableEq, Repr

def FaultKind.code : FaultKind → String
  | .unknownOpcode => "E001"
  | .malformedOperand => "E002"
  | .widthOverflow => "E003"

/-- The name of a kind where a result is listed. -/
def FaultKind.name : FaultKind → String
  | .unknownOpcode => "UNKNOWN_OPCODE"
  | .malformedOperand => "MALFORMED_OPERAND"
  | .widthOverflow => "WIDTH_OVERFLOW"

/-- The classes of faults, by which a handler chooses what it handles. Every
fault of the program belongs to one of them. -/
inductive FaultClass
  | encoding (kind : FaultKind)
  | value
  | undecodable
  | unparsable
  | type
  | attribute
  | index
  | overflow
  | memory
  | recursion
  | system
  | runtime
  deriving DecidableEq, Repr

namespace FaultClass

/-- The name under which a handler asks for a class. -/
def name : FaultClass → String
  | .encoding .unknownOpcode => "UnknownOpcodeError"
  | .encoding .malformedOperand => "MalformedOperandError"
  | .encoding .widthOverflow => "WidthOverflowError"
  | .value => "ValueError"
  | .undecodable => "UnicodeDecodeError"
  | .unparsable => "JSONDecodeError"
  | .type => "TypeError"
  | .attribute => "AttributeError"
  | .index => "IndexError"
  | .overflow => "OverflowError"
  | .memory => "MemoryError"
  | .recursion => "RecursionError"
  | .system => "OSError"
  | .runtime => "RuntimeError"

/-- Whether a handler of faults in a program handles a class. -/
def IsEncoding (c : FaultClass) : Prop :=
  ∃ kind, c = .encoding kind

/-- Whether a handler of unfit values handles a class. Bytes that encode no
text and texts that describe no value count as such. -/
def IsValue (c : FaultClass) : Prop :=
  c ∈ [.value, .undecodable, .unparsable]

instance (c : FaultClass) : Decidable c.IsValue :=
  inferInstanceAs (Decidable (_ ∈ _))

end FaultClass

end WordAssembler
