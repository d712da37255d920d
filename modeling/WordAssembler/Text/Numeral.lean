import WordAssembler.Text.Character

namespace WordAssembler

/-- The largest number of decimal digits that is read into a number or
written from one. -/
def maxDigits : Nat := 4300

/-- Whether a number has few enough digits to be written. -/
def Writable (n : Int) : Prop :=
  n.natAbs < Nat.pow 10 maxDigits

instance (n : Int) : Decidable (Writable n) :=
  inferInstanceAs (Decidable (_ < _))

inductive NumeralFault
  | malformed
  | tooManyDigits (count : Nat)
  deriving DecidableEq, Repr

def tooManyDigitsMessage (count : Nat) : String :=
  s!"Exceeds the limit ({maxDigits} digits) for integer string conversion: " ++
    s!"value has {count} digits; use sys.set_int_max_str_digits() to increase the limit"

def unwritableMessage : String :=
  s!"Exceeds the limit ({maxDigits} digits) for integer string conversion; " ++
    "use sys.set_int_max_str_digits() to increase the limit"

/-- A text with a character before it as often as it is shorter than a width. -/
def padStart (fill : Char) (width : Nat) (s : List Char) : List Char :=
  List.replicate (width - s.length) fill ++ s

def paddedDigits (radix width n : Nat) : List Char :=
  padStart '0' width (Nat.toDigits radix n)

theorem length_padStart (fill : Char) (width : Nat) (s : List Char) :
    (padStart fill width s).length = max width s.length := by
  simp only [padStart, List.length_append, List.length_replicate]
  omega

/-- The number that a row of digits denotes in a radix, the first digit
weighing most. -/
def ofDigitValues (radix : Nat) (digits : List Nat) : Nat :=
  digits.foldl (fun value digit => radix * value + digit) 0

/-- The sign before a numeral, as whether it is a minus, and what follows. -/
def splitSign : List Char → Bool × List Char
  | '-' :: rest => (true, rest)
  | '+' :: rest => (false, rest)
  | s => (false, s)

def withSign (negative : Bool) (magnitude : Nat) : Int :=
  if negative then -(magnitude : Int) else magnitude

/-- Reads a decimal integer: an optional sign and digits of any script,
leading zeros allowed. -/
def readInteger (s : List Char) : Except NumeralFault Int :=
  let (negative, body) := splitSign s
  match body.mapM digitValue? with
  | none | some [] => .error .malformed
  | some digits =>
    if maxDigits < digits.length then .error (.tooManyDigits digits.length)
    else .ok (withSign negative (ofDigitValues 10 digits))

/-- The basic Latin form of a character in a literal: a digit of any script
becomes the digit of that value, a blank beyond basic Latin a space. -/
def literalChar (c : Char) : Char :=
  if c.toNat < 127 then c
  else if isBlank c then ' '
  else match digitValue? c with
    | some d => Char.ofNat (48 + d)
    | none => c

/-- The blanks that may stand around a literal. -/
def isLiteralBlank (c : Char) : Bool :=
  c == ' ' || (9 ≤ c.toNat && c.toNat ≤ 13)

def radixDigit? (radix : Nat) (c : Char) : Option Nat :=
  let value? :=
    if c.isDigit then some (c.toNat - 48)
    else if c.isLower then some (c.toNat - 87)
    else if c.isUpper then some (c.toNat - 55)
    else none
  value?.filter (· < radix)

/-- The radix that the start of a literal announces, and the digits. An
underscore may separate the announcement from the digits. -/
def splitRadix (s : List Char) : Nat × List Char :=
  let afterMark : List Char → List Char
    | '_' :: rest => rest
    | rest => rest
  match s with
  | '0' :: mark :: rest =>
    if mark = 'x' ∨ mark = 'X' then (16, afterMark rest)
    else if mark = 'o' ∨ mark = 'O' then (8, afterMark rest)
    else if mark = 'b' ∨ mark = 'B' then (2, afterMark rest)
    else (10, s)
  | _ => (10, s)

/-- Whether every underscore stands alone between two other characters. -/
def underscoresSeparate : List Char → Bool
  | [] => true
  | ['_'] => false
  | c :: '_' :: rest => c != '_' && underscoresSeparate ('_' :: rest)
  | _ :: rest => underscoresSeparate rest

/-- Reads an integer literal, whose radix is announced by `0x`, `0o` or `0b`
and is ten otherwise. Underscores may separate digits. Without an announced
radix a leading zero is refused unless the value is zero, so that no literal
can be taken for base eight. Only decimal digits are counted against the
limit, since the other radices are read without repeated multiplication. -/
def readLiteral (s : List Char) : Except NumeralFault Int :=
  let (negative, body) := splitSign ((s.map literalChar).dropWhile isLiteralBlank)
  let (radix, body) := splitRadix body
  let belongs := fun c => c == '_' || (radixDigit? radix c).isSome
  let run := body.takeWhile belongs
  let rest := body.dropWhile belongs
  let digits := run.filterMap (radixDigit? radix)
  let value := ofDigitValues radix digits
  if run.head? = some '_' ∨ !underscoresSeparate run then .error .malformed
  else if radix = 10 ∧ maxDigits < digits.length then .error (.tooManyDigits digits.length)
  else if digits = [] ∨ (radix = 10 ∧ digits.head? = some 0 ∧ value ≠ 0) then .error .malformed
  else if rest.all isLiteralBlank then .ok (withSign negative value)
  else .error .malformed

end WordAssembler
