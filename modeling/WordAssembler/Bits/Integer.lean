import WordAssembler.Bits.Basic

namespace WordAssembler

/-- The bit of weight `2 ^ i` of an integer, negative ones taken in two's
complement without end. -/
def integerBit (value : Int) (i : Nat) : Bool :=
  value >>> i % 2 == 1

def integerBitAt [Machine] (value : Int) (i : Int) : Except BitFault Bool := do
  requireWeight i
  return integerBit value i.toNat

/-- The number whose binary digits are the bits, the first weighing most. -/
def bitsValue (bits : List Bool) : Nat :=
  bits.foldl (fun value bit => 2 * value + bit.toNat) 0

/-- The `width` low binary digits of a number, the one of most weight first. -/
def naturalBits (n width : Nat) : List Bool :=
  (List.range width).map fun i => n.testBit (width - 1 - i)

def capacity (width : Nat) : Nat :=
  1 <<< width

/-- Whether a number is written in `width` bits without a sign: nothing is left
of it above them. -/
def fitsWithoutSign [Machine] (value width : Int) : Except BitFault Bool :=
  if value < 0 then .ok false
  else do
    requireWeight width
    return decide (value >>> width.toNat = 0)

/-- Whether a number is written in `width` bits in two's complement: from the
sign bit on, all its bits are the same. No bits write zero only. -/
def fitsWithSign [Machine] (value width : Int) : Except BitFault Bool :=
  if width = 0 then .ok (decide (value = 0))
  else do
    requireWeight (width - 1)
    let signs := value >>> (width - 1).toNat
    return decide (signs = 0 ∨ signs = -1)

def checkFits [Machine] (value width : Int) (signed : Bool) : Except BitFault Int := do
  let fits ← if signed then fitsWithSign value width else fitsWithoutSign value width
  if fits then return value
  else throw (BitFault.overflow value signed width).reported

namespace Bits

variable [Machine] {limit : Option Nat}

/-- The bits from `start` on, as many as asked for, of which the last one weighs
one. The weight of a set bit has to be storable. -/
def weighFrom (b : Bits limit) (start : Int) : Nat → Except BitFault (List Bool)
  | 0 => .ok []
  | n + 1 => do
    let first ← b.get start
    if first then requirePower n
    let rest ← b.weighFrom (start + 1) n
    return first :: rest

def unsignedValue (b : Bits limit) (width : Int) : Except BitFault Nat := do
  requireWidth width
  return bitsValue (← b.weighFrom 0 width.toNat)

/-- The number that at most eight bits write without a sign. A wider row is
refused even when its value is small. -/
def byteValue (b : Bits limit) (width : Int) : Except BitFault Nat :=
  if 8 < width then .error (BitFault.byteOverflow width).reported else b.unsignedValue width

/-- The number that the bits below a width write in two's complement. Below
zero, where the first bit is set, the negated bits write one less than its
magnitude; a copy of all bits is negated, so memory has to hold it. -/
def signedValue (b : Bits limit) (width : Int) : Except BitFault Int := do
  requireWidth width
  let negative ← if width = 0 then pure false else b.get 0
  if negative then
    let bits ← b.take width
    if lastExponent < width then throw .outOfMemory
    else return -(bitsValue (bits.map not) + 1 : Int)
  else return (← b.unsignedValue width)

/-- The row that writes a number in `width` bits in two's complement; digits
of higher weight are dropped. The number below zero by `n + 1` has the negated
bits of `n`. The last bit is written first, so memory has to hold all of them. -/
def ofInt (value width : Int) : Except BitFault BitRow := do
  requireWidth width
  let width := width.toNat
  requirePower (width - 1)
  match value with
  | .ofNat n => return ofList (naturalBits n width)
  | .negSucc n =>
    requirePower width
    return (ofList (naturalBits n width)).negate 0 width

/-- Copies the bits of `source` below its width into `destination`, as a
number without a sign. Widening clears the destination and keeps the number at
the low end; narrowing keeps the low bits and leaves the destination alone
beyond its width. Each bit is read before it is written. -/
def resize {limit' : Option Nat} (source : Bits limit') (sourceWidth : Int)
    (destination : Bits limit) (destinationWidth : Int) : Edited limit :=
  match requireWidth sourceWidth, requireWidth destinationWidth with
  | .error f, _ | .ok _, .error f => ⟨destination, some f⟩
  | .ok _, .ok _ =>
    if sourceWidth ≤ destinationWidth then
      let gap := destinationWidth - sourceWidth
      editFrom (fun j => do return some (gap + j, ← source.get j)) sourceWidth.toNat 0 blank
    else
      let gap := sourceWidth - destinationWidth
      editFrom (fun j => do return some ((j : Int), ← source.get (gap + j)))
        destinationWidth.toNat 0 destination

/-- Resizes a row into itself. When widening, the row is cleared before it is
read, so nothing of it is left. -/
def resizeSelf (b : Bits limit) (sourceWidth destinationWidth : Int) : Edited limit :=
  let source : Bits limit := if sourceWidth ≤ destinationWidth then blank else b
  source.resize sourceWidth b destinationWidth

/-- The row that writes, in the destination width, the number that the source
writes in two's complement; refused if a narrower row cannot write it. -/
def resizeSigned (source : Bits limit) (sourceWidth destinationWidth : Int) :
    Except BitFault BitRow := do
  let value ← source.signedValue sourceWidth
  if destinationWidth < sourceWidth then
    discard (checkFits value destinationWidth true)
  ofInt value destinationWidth

/-- Sets the bits of a row where the low `count` bits of a number are set. The
lowest goes to the index `last` and the others before it. No bit is cleared. -/
def imprint (b : Bits limit) (source count last : Int) : Edited limit :=
  editFrom (fun i => do return if ← integerBitAt source i then some (last - i, true) else none)
    count.toNat 0 b

end Bits

end WordAssembler
