import WordAssembler.Text.CodePoint
import WordAssembler.Text.Numeral
import WordAssembler.Text.Printable

namespace WordAssembler

/-- The mark around a quoted text: the single one, unless the text holds that
mark and not the double one. -/
def quoteMark (s : Text) : Char :=
  if s.contains (.char '\x27') && !s.contains (.char '\x22') then '\x22' else '\x27'

/-- A code point between two marks. The mark itself and the backslash get a
backslash before them, the usual controls a letter, and any other code point
without a printed form its number in base sixteen, in the shortest of three
widths. -/
def escapeBetween (mark : Char) : CodePoint → List Char
  | .half offset => '\\' :: 'u' :: paddedDigits 16 4 (0xd800 + offset)
  | .char c =>
    if c = '\\' ∨ c = mark then ['\\', c]
    else if c = '\n' then ['\\', 'n']
    else if c = '\r' then ['\\', 'r']
    else if c = '\t' then ['\\', 't']
    else if isPrintable c then [c]
    else if c.toNat < 0x100 then '\\' :: 'x' :: paddedDigits 16 2 c.toNat
    else if c.toNat < 0x10000 then '\\' :: 'u' :: paddedDigits 16 4 c.toNat
    else '\\' :: 'U' :: paddedDigits 16 8 c.toNat

def quotedChars (s : Text) : List Char :=
  let mark := quoteMark s
  mark :: s.flatMap (escapeBetween mark) ++ [mark]

def quoted (s : Text) : String :=
  String.ofList (quotedChars s)

end WordAssembler
