import WordAssembler.Layout

namespace WordAssembler

inductive Format
  | one
  | two
  | three
  | four
  | five
  | six
  | seven
  | eight
  deriving DecidableEq, Repr

/-- Where an operand stands in a line. Tokens are the pieces between commas,
counted from zero. -/
inductive Place
  | column
  | tail
  | token (index : Nat)
  | optionalToken (index : Nat)
  deriving DecidableEq, Repr

namespace Format

def all : List Format :=
  [.one, .two, .three, .four, .five, .six, .seven, .eight]

def number : Format → Nat
  | .one => 1
  | .two => 2
  | .three => 3
  | .four => 4
  | .five => 5
  | .six => 6
  | .seven => 7
  | .eight => 8

/-- The name of a format, which is its number as a word in capitals. -/
def name : Format → String
  | .one => "ONE"
  | .two => "TWO"
  | .three => "THREE"
  | .four => "FOUR"
  | .five => "FIVE"
  | .six => "SIX"
  | .seven => "SEVEN"
  | .eight => "EIGHT"

def ofNumber? (n : Int) : Option Format :=
  all.find? fun format => (format.number : Int) = n

def ofName? (name : List Char) : Option Format :=
  all.find? fun format => format.name.toList = name

/-- The layout of the words that instructions of a format give. -/
def layout : Format → Layout
  | .one | .two | .three | .four => .loadStore
  | .five | .six => .registerPair
  | .seven => .shift
  | .eight => .inputOutput

/-- The operands of a format in the order in which they are read, each with
its place in the line. -/
def grammar : Format → List (Field × Place)
  | .one =>
    [(.register, .column), (.indexRegister, .token 1), (.address, .token 2),
      (.indirection, .optionalToken 3)]
  | .two => [(.indexRegister, .column), (.address, .token 1), (.indirection, .optionalToken 2)]
  | .three => [(.register, .column), (.address, .token 1)]
  | .four => [(.address, .tail)]
  | .five => [(.registerX, .column)]
  | .six => [(.registerX, .column), (.registerY, .token 1)]
  | .seven =>
    [(.register, .column), (.count, .token 1), (.leftRight, .token 2),
      (.arithmeticLogical, .token 3)]
  | .eight => [(.register, .column), (.device, .token 1)]

/-- The column of the first operand. It follows the mnemonic and one more
character; only in the last format the length of the mnemonic moves it. -/
def column (format : Format) (key : List Char) : Nat :=
  if format = .eight then key.length + 1 else 4

end Format

end WordAssembler
