import WordAssembler.Format
import WordAssembler.LineError
import WordAssembler.Text.Numeral
import WordAssembler.Text.Split

namespace WordAssembler

/-- Reads an operand that fits a signed byte. Blanks around it are passed over,
but quoted in a message. -/
def readByte (text : List Char) (name : String) (column : Option Int) : Except LineFault Int :=
  match readInteger (trim text) with
  | .ok value =>
    if -128 ≤ value ∧ value ≤ 127 then .ok value
    else .error (.reported (.operand name (.outOfRange value) column))
  | .error .malformed => .error (.reported (.operand name (.notANumber text) column))
  | .error (.tooManyDigits count) => .error (.tooManyDigits count)

def tokens (line : List Char) : List (List Char) :=
  separated ',' line

/-- The column at which a token starts: those before it and their commas. -/
def tokenColumn (pieces : List (List Char)) (index : Nat) : Nat :=
  (pieces.take index).foldl (fun column piece => column + (piece.length + 1)) 0

def readToken (line : List Char) (name : String) (index : Nat) : Except LineFault Int :=
  match (tokens line)[index]? with
  | some piece => readByte piece name (some (tokenColumn (tokens line) index : Nat))
  | none => .error (.reported (.operand name (.absentToken index) none))

/-- Reads the operand at a place. The one at the operand column is a single
character; an optional token that is absent counts as zero. -/
def readPlace (text : List Char) (column : Nat) (name : String) : Place → Except LineFault Int
  | .column =>
    match text[column]? with
    | some c => readByte [c] name (some (column : Nat))
    | none => .error (.reported (.operand name (.absentAtColumn column) (some (column : Nat))))
  | .tail => readByte (text.drop column) name (some (column : Nat))
  | .token index => readToken text name index
  | .optionalToken index =>
    if index < (tokens text).length then readToken text name index else .ok 0

/-- Reads the operands of a line in the order of its format. The first one at
fault is reported. -/
def readOperands (line : List Char) (format : Format) (key : List Char) :
    Except LineFault Operands :=
  format.grammar.foldlM
    (fun operands (field, place) =>
      operands.put field <$> readPlace line (format.column key) field.label place)
    Operands.none

end WordAssembler
