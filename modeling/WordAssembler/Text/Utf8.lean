import WordAssembler.Text.Quoted

namespace WordAssembler

inductive Utf8Cause
  | invalidStart
  | invalidContinuation
  | unexpectedEnd
  deriving DecidableEq, Repr

/-- The bytes at fault: the first of them, its position and their number. -/
structure Utf8Fault where
  cause : Utf8Cause
  first : UInt8
  position : Nat
  count : Nat
  deriving DecidableEq, Repr

def Utf8Cause.message : Utf8Cause → String
  | .invalidStart => "invalid start byte"
  | .invalidContinuation => "invalid continuation byte"
  | .unexpectedEnd => "unexpected end of data"

/-- A fault in words. A single byte is shown, several only by their positions. -/
def Utf8Fault.message (f : Utf8Fault) : String :=
  let place :=
    if f.count = 1 then
      s!"byte 0x{String.ofList (paddedDigits 16 2 f.first.toNat)} in position {f.position}"
    else s!"bytes in position {f.position}-{f.position + f.count - 1}"
  s!"'utf-8' codec can't decode {place}: {f.cause.message}"

/-- A character of which some bytes have been read: where it starts and with
which byte, how many bytes were read and how many are missing, the value so
far, and the range in which the next byte has to lie. -/
structure PartialChar where
  start : Nat
  first : UInt8
  seen : Nat
  missing : Nat
  value : Nat
  low : Nat
  high : Nat

/-- What a first byte other than a basic Latin one announces. The range of the
second byte leaves out the values that a shorter encoding has, the halves of
surrogate pairs and those beyond the last code point. -/
def PartialChar.ofFirst? (position : Nat) (byte : UInt8) : Option PartialChar :=
  let n := byte.toNat
  let opening := fun missing value low high =>
    some (PartialChar.mk position byte 1 missing value low high)
  if n < 0xc2 then none
  else if n < 0xe0 then opening 1 (n - 0xc0) 0x80 0xbf
  else if n = 0xe0 then opening 2 0 0xa0 0xbf
  else if n = 0xed then opening 2 0xd 0x80 0x9f
  else if n < 0xf0 then opening 2 (n - 0xe0) 0x80 0xbf
  else if n = 0xf0 then opening 3 0 0x90 0xbf
  else if n < 0xf4 then opening 3 (n - 0xf0) 0x80 0xbf
  else if n = 0xf4 then opening 3 4 0x80 0x8f
  else none

/-- Decodes bytes from a position on, after the bytes of a partial character.
Bytes that run out in the middle of a character are at fault together; a byte
that does not go on with a character puts those before it at fault. -/
def decodeUtf8From (position : Nat) : Option PartialChar → List UInt8 →
    Except Utf8Fault (List Char)
  | none, [] => .ok []
  | some p, [] => .error ⟨.unexpectedEnd, p.first, p.start, p.seen⟩
  | none, byte :: rest =>
    if byte.toNat < 0x80 then
      (Char.ofNat byte.toNat :: ·) <$> decodeUtf8From (position + 1) none rest
    else
      match PartialChar.ofFirst? position byte with
      | none => .error ⟨.invalidStart, byte, position, 1⟩
      | some p => decodeUtf8From (position + 1) (some p) rest
  | some p, byte :: rest =>
    let n := byte.toNat
    if n < p.low ∨ p.high < n then .error ⟨.invalidContinuation, p.first, p.start, p.seen⟩
    else
      let value := p.value * 64 + n % 64
      if p.missing = 1 then
        (Char.ofNat value :: ·) <$> decodeUtf8From (position + 1) none rest
      else
        let next : PartialChar :=
          ⟨p.start, p.first, p.seen + 1, p.missing - 1, value, 0x80, 0xbf⟩
        decodeUtf8From (position + 1) (some next) rest

def decodeUtf8 (bytes : List UInt8) : Except Utf8Fault (List Char) :=
  decodeUtf8From 0 none bytes

end WordAssembler
