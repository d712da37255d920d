import WordAssembler.Fault
import WordAssembler.Text.Quoted

namespace WordAssembler

/-- Why an operation on a row of bits is refused. A row with a limit refuses
the indices from that limit on. Where a number would have to be stored that is
larger than memory, it is told apart whether its digits could still be counted. -/
inductive BitFault
  | index (index : Int) (limit : Option Nat)
  | flipRange (start stop : Int)
  | slice (start last : Int)
  | negativeStore
  | notABit (c : Char)
  | negativeWidth (width : Int)
  | negativeShift
  | overflow (value : Int) (signed : Bool) (width : Int)
  | byteOverflow (width : Int)
  | unwritable
  | uncountable
  | outOfMemory
  deriving DecidableEq, Repr

namespace BitFault

def message : BitFault → String
  | .index i none => s!"bit index {i} out of range"
  | .index i (some n) => s!"bit index {i} out of range for {n}-bit word"
  | .flipRange start stop => s!"invalid flip range [{start}, {stop})"
  | .slice start last => s!"field [{start}, {last}] out of range"
  | .negativeStore => "bit storage cannot be negative"
  | .notABit c => s!"invalid bit character: {quoted [.char c]}"
  | .negativeWidth width => s!"width must be non-negative, got {width}"
  | .negativeShift => "negative shift count"
  | .overflow value true width => s!"{value} does not fit a signed {width}-bit field"
  | .overflow value false width => s!"{value} does not fit a unsigned {width}-bit field"
  | .byteOverflow width => s!"{width}-bit vector does not fit an unsigned byte"
  | .unwritable => unwritableMessage
  | .uncountable => "too many digits in integer"
  | .outOfMemory => ""

def faultClass : BitFault → FaultClass
  | .index .. | .flipRange .. | .slice .. => .index
  | .overflow .. | .byteOverflow _ => .encoding .widthOverflow
  | .negativeStore | .notABit _ | .negativeWidth _ | .negativeShift | .unwritable => .value
  | .uncountable => .overflow
  | .outOfMemory => .memory

/-- The numbers of any size that the message of a fault writes. -/
def numbers : BitFault → List Int
  | .index i _ => [i]
  | .flipRange start stop => [start, stop]
  | .slice start last => [start, last]
  | .negativeWidth width | .byteOverflow width => [width]
  | .overflow value _ width => [value, width]
  | _ => []

/-- A fault as it is reported: one that names a number too long to be written
gives way to that fact. -/
def reported (f : BitFault) : BitFault :=
  if ∀ n ∈ f.numbers, Writable n then f else .unwritable

end BitFault

end WordAssembler
