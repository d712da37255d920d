import WordAssembler.Bits.Integer

namespace WordAssembler

def wordOf (value : Int) : Nat :=
  (value % capacity wordWidth).toNat

/-- The integer in the signed range of a word that has the same bits. -/
def signedWordOf (value : Int) : Int :=
  if capacity (wordWidth - 1) ≤ wordOf value then (wordOf value : Int) - capacity wordWidth
  else wordOf value

/-- The number that `count` bits from an index on write without a sign. -/
def Bits.slice {limit : Option Nat} (b : Bits limit) (start count : Nat) : Nat :=
  bitsValue ((List.range count).map fun i => b.bit (start + i))

namespace Word

def ofInt (value : Int) : Word :=
  Bits.ofList (naturalBits (wordOf value) wordWidth)

def toNat (w : Word) : Nat :=
  w.slice 0 wordWidth

def toInt (w : Word) : Int :=
  signedWordOf w.toNat

/-- The number in the `count` bits that end at the index `last`. -/
def sliceTo (w : Word) (last count : Int) : Except BitFault Nat :=
  let start := last - count + 1
  if start < 0 ∨ (wordWidth : Int) ≤ last then .error (BitFault.slice start last).reported
  else .ok (w.slice start.toNat count.toNat)

def binary (w : Word) : List Char :=
  Bits.digits ((List.range wordWidth).map w.bit)

def octal (w : Word) : List Char :=
  paddedDigits 8 6 w.toNat

/-- The word that holds, at its low end, the bits of a row below a width. -/
def ofBits [Machine] {limit : Option Nat} (b : Bits limit) (width : Int) : Except BitFault Word :=
  match b.resize width (Bits.blank : Word) wordWidth with
  | ⟨w, none⟩ => .ok w
  | ⟨_, some f⟩ => .error f

end Word

end WordAssembler
