import WordAssembler.Fault
import WordAssembler.Json.Basic
import WordAssembler.Machine

namespace WordAssembler.Json

inductive SyntaxFault
  | expectedValue
  | expectedName
  | expectedColon
  | expectedComma
  | unterminatedText
  | badEscape
  | badCodeEscape
  | controlCharacter
  | extraData
  | byteOrderMark
  deriving DecidableEq, Repr

def SyntaxFault.message : SyntaxFault → String
  | .expectedValue => "Expecting value"
  | .expectedName => "Expecting property name enclosed in double quotes"
  | .expectedColon => "Expecting ':' delimiter"
  | .expectedComma => "Expecting ',' delimiter"
  | .unterminatedText => "Unterminated string starting at"
  | .badEscape => "Invalid \\escape"
  | .badCodeEscape => "Invalid \\uXXXX escape"
  | .controlCharacter => "Invalid control character at"
  | .extraData => "Extra data"
  | .byteOrderMark => "Unexpected UTF-8 BOM (decode using utf-8-sig)"

inductive Container
  | list
  | object
  deriving DecidableEq, Repr

def Container.name : Container → String
  | .list => "array"
  | .object => "object"

/-- Why a text is not read: a fault at a position, counted in characters from
zero, an integer of too many digits, or a value inside too many others. -/
inductive ReadFault
  | syntaxAt (fault : SyntaxFault) (position : Nat)
  | tooManyDigits (count : Nat)
  | tooDeep (kind : Container)
  deriving DecidableEq, Repr

def tooDeepMessage (kind : Container) : String :=
  s!"maximum recursion depth exceeded while decoding a JSON {kind.name} from a unicode string"

/-- The line and the column of a position, both counted from one. -/
def lineAndColumn (text : List Char) (position : Nat) : Nat × Nat :=
  let before := text.take position
  (before.count '\n' + 1, (before.reverse.takeWhile (· ≠ '\n')).length + 1)

def placedMessage (text : List Char) (fault : SyntaxFault) (position : Nat) : String :=
  let (line, column) := lineAndColumn text position
  s!"{fault.message}: line {line} column {column} (char {position})"

structure Cursor where
  rest : List Char
  position : Nat

namespace Cursor

def advance (c : Cursor) (n : Nat) : Cursor :=
  ⟨c.rest.drop n, c.position + n⟩

/-- The blanks that may stand between the parts of a value. -/
def isSpace (c : Char) : Bool :=
  c == ' ' || c == '\t' || c == '\n' || c == '\r'

def skipSpace (c : Cursor) : Cursor :=
  c.advance (c.rest.takeWhile isSpace).length

end Cursor

def failAt {α : Type} (fault : SyntaxFault) (c : Cursor) : Except ReadFault α :=
  .error (.syntaxAt fault c.position)

def hexDigit? (c : Char) : Option Nat :=
  radixDigit? 16 c

def hexCode? (digits : List Char) : Option Nat :=
  (digits.mapM hexDigit?).map (ofDigitValues 16)

/-- The character that a letter after a backslash stands for. -/
def escapedChar? : Char → Option Char
  | '\x22' => some '\x22'
  | '\\' => some '\\'
  | '/' => some '/'
  | 'b' => some '\x08'
  | 'f' => some '\x0c'
  | 'n' => some '\n'
  | 'r' => some '\r'
  | 't' => some '\t'
  | _ => none

/-- Reads the four digits after `\u`, where the cursor stands. Something has
to follow them, if only the closing mark. A fault is placed at the letter. -/
def readCode (c : Cursor) : Except ReadFault (Nat × Cursor) :=
  match hexCode? (c.rest.take 4) with
  | some code =>
    if c.rest.length < 5 then .error (.syntaxAt .badCodeEscape (c.position - 1))
    else .ok (code, c.advance 4)
  | none => .error (.syntaxAt .badCodeEscape (c.position - 1))

/-- The code point of a number that has four hexadecimal digits. -/
def codePointOf (code : Nat) : CodePoint :=
  if h : 0xd800 ≤ code ∧ code < 0xe000 then .half ⟨code - 0xd800, by omega⟩
  else .char (Char.ofNat code)

/-- Reads a code point given by its number. The two halves of a surrogate pair
next to each other stand for one character of the higher planes; half a pair
alone stands for itself. -/
def readCodePoint (c : Cursor) : Except ReadFault (CodePoint × Cursor) := do
  let (code, after) ← readCode c
  let paired := 6 < after.rest.length ∧ after.rest.take 2 = ['\\', 'u']
  if 0xd800 ≤ code ∧ code < 0xdc00 ∧ paired then
    let (second, afterPair) ← readCode (after.advance 2)
    if 0xdc00 ≤ second ∧ second < 0xe000 then
      let joined := Char.ofNat (0x10000 + (code - 0xd800) * 0x400 + (second - 0xdc00))
      return (.char joined, afterPair)
    else return (codePointOf code, after)
  else return (codePointOf code, after)

/-- Reads a text up to its closing mark. Each step takes at least one
character, so the length of what is left suffices as `fuel`. -/
def readRest (opening : Nat) : (fuel : Nat) → Cursor → Except ReadFault (Text × Cursor)
  | 0, _ => .error (.syntaxAt .unterminatedText opening)
  | fuel + 1, c =>
    match c.rest with
    | [] | ['\\'] => .error (.syntaxAt .unterminatedText opening)
    | '\x22' :: _ => .ok ([], c.advance 1)
    | '\\' :: 'u' :: _ => do
      let (point, after) ← readCodePoint (c.advance 2)
      let (points, last) ← readRest opening fuel after
      return (point :: points, last)
    | '\\' :: letter :: _ =>
      match escapedChar? letter with
      | none => failAt .badEscape c
      | some char => do
        let (points, last) ← readRest opening fuel (c.advance 2)
        return (.char char :: points, last)
    | char :: _ =>
      if char.toNat ≤ 0x1f then failAt .controlCharacter c
      else do
        let (points, last) ← readRest opening fuel (c.advance 1)
        return (.char char :: points, last)

/-- Reads a text whose opening mark stands at the cursor. -/
def readText (c : Cursor) : Except ReadFault (Text × Cursor) :=
  readRest c.position c.rest.length (c.advance 1)

def fractionDigits : List Char → List Char
  | '.' :: rest => rest.takeWhile Char.isDigit
  | _ => []

/-- The sign and the digits of an exponent at the start of a text, and how
many characters they take. There is no exponent without a digit. -/
def exponentPart : List Char → Option (Bool × List Char × Nat)
  | e :: rest =>
    if e = 'e' ∨ e = 'E' then
      let (negative, digits) := splitSign rest
      let run := digits.takeWhile Char.isDigit
      if run = [] then none
      else some (negative, run, 1 + (rest.length - digits.length) + run.length)
    else none
  | [] => none

def latinDigits (digits : List Char) : Nat :=
  ofDigitValues 10 (digits.map fun c => c.toNat - 48)

/-- Reads a number. With neither a fraction nor an exponent it is an integer,
whose digits are limited in number. -/
def readNumber (c : Cursor) : Except ReadFault (Json × Cursor) :=
  let negative := c.rest.head? = some '-'
  let body := if negative then c.rest.drop 1 else c.rest
  let whole :=
    match body with
    | '0' :: _ => ['0']
    | _ => body.takeWhile Char.isDigit
  if whole = [] then failAt .expectedValue c
  else
    let afterWhole := body.drop whole.length
    let fraction := fractionDigits afterWhole
    let fractionSize := if fraction = [] then 0 else fraction.length + 1
    let size := (if negative then 1 else 0) + whole.length + fractionSize
    match exponentPart (afterWhole.drop fractionSize) with
    | some (negativeExponent, digits, exponentSize) =>
      let exponent := withSign negativeExponent (latinDigits digits) - fraction.length
      .ok (.float (.ofDecimal negative (latinDigits (whole ++ fraction)) exponent),
        c.advance (size + exponentSize))
    | none =>
      if fraction ≠ [] then
        .ok (.float (.ofDecimal negative (latinDigits (whole ++ fraction)) (-fraction.length)),
          c.advance size)
      else if maxDigits < whole.length then .error (.tooManyDigits whole.length)
      else .ok (.int (withSign negative (latinDigits whole)), c.advance size)

def wordValues : List (List Char × Json) :=
  [("null".toList, .null), ("true".toList, .bool true), ("false".toList, .bool false),
    ("NaN".toList, .float .undefined), ("Infinity".toList, .float (.infinite false)),
    ("-Infinity".toList, .float (.infinite true))]

def readScalar (c : Cursor) : Except ReadFault (Json × Cursor) :=
  match wordValues.find? fun (word, _) => word.isPrefixOf c.rest with
  | some (word, value) => .ok (value, c.advance word.length)
  | none => readNumber c

def readName (c : Cursor) : Except ReadFault (Text × Cursor) := do
  if c.rest.head? ≠ some '\x22' then failAt .expectedName c
  else
    let (name, after) ← readText c
    let after := after.skipSpace
    if after.rest.head? ≠ some ':' then failAt .expectedColon after
    else return (name, (after.advance 1).skipSpace)

/-- What ends an item of a list or an object: the closing mark, or a comma and
another item. The answer is whether the whole is closed. -/
def readSeparator (close : Char) (c : Cursor) : Except ReadFault (Bool × Cursor) :=
  let c := c.skipSpace
  if c.rest.head? = some close then .ok (true, c.advance 1)
  else if c.rest.head? = some ',' then .ok (false, (c.advance 1).skipSpace)
  else failAt .expectedComma c

/-- Opens one more list or object, and gives the room that is left for others. -/
def enter (kind : Container) (room : Nat) : Except ReadFault Nat :=
  if room = 0 then .error (.tooDeep kind) else .ok (room - 1)

mutual
/-- Reads a value at the cursor, in which there may be as many open lists and
objects as there is `room` for. A list or an object takes one character and
two calls before the value inside it, so twice the length of the text suffices
as `fuel`. -/
def readValue : (fuel room : Nat) → Cursor → Except ReadFault (Json × Cursor)
  | 0, _, c => failAt .expectedValue c
  | fuel + 1, room, c =>
    match c.rest.head? with
    | some '\x22' => do
      let (points, after) ← readText c
      return (.text points, after)
    | some '[' => do
      let room ← enter .list room
      let inside := (c.advance 1).skipSpace
      if inside.rest.head? = some ']' then return (.list [], inside.advance 1)
      else
        let (items, after) ← readItems fuel room inside
        return (.list items, after)
    | some '\x7b' => do
      let room ← enter .object room
      let inside := (c.advance 1).skipSpace
      if inside.rest.head? = some '\x7d' then return (.object [], inside.advance 1)
      else
        let (members, after) ← readMembers fuel room inside []
        return (.object members, after)
    | _ => readScalar c

/-- Reads the items of a list up to its closing mark. -/
def readItems : (fuel room : Nat) → Cursor → Except ReadFault (List Json × Cursor)
  | 0, _, c => failAt .expectedValue c
  | fuel + 1, room, c => do
    let (item, after) ← readValue fuel room c
    let (closed, next) ← readSeparator ']' after
    if closed then return ([item], next)
    else
      let (items, last) ← readItems fuel room next
      return (item :: items, last)

/-- Reads the members of an object up to its closing mark, after those before. -/
def readMembers : (fuel room : Nat) → Cursor → List (Text × Json) →
    Except ReadFault (List (Text × Json) × Cursor)
  | 0, _, c, _ => failAt .expectedValue c
  | fuel + 1, room, c, before => do
    let (name, start) ← readName c
    let (value, after) ← readValue fuel room start
    let (closed, next) ← readSeparator '\x7d' after
    let members := insertMember before name value
    if closed then return (members, next)
    else readMembers fuel room next members
end

/-- Reads a text that holds one value and blanks around it. -/
def read [Machine] (text : List Char) : Except ReadFault Json := do
  let start : Cursor := ⟨text, 0⟩
  if text.head? = some '\ufeff' then failAt .byteOrderMark start
  else
    let (value, after) ← readValue (2 * text.length + 2) Machine.nesting start.skipSpace
    let last := after.skipSpace
    if last.rest = [] then return value
    else failAt .extraData last

def ReadFault.message (text : List Char) : ReadFault → String
  | .syntaxAt fault position => placedMessage text fault position
  | .tooManyDigits count => tooManyDigitsMessage count
  | .tooDeep kind => tooDeepMessage kind

def ReadFault.faultClass : ReadFault → FaultClass
  | .syntaxAt .. => .unparsable
  | .tooManyDigits _ => .value
  | .tooDeep _ => .recursion

end WordAssembler.Json
