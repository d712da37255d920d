import WordAssembler.Registry.Basic
import WordAssembler.Json.Reader

namespace WordAssembler

inductive FormatFault
  | number (value : Json)
  | name (text : Text)
  | kind (value : Json)

def FormatFault.message : FormatFault → String
  | .number value => s!"{value.display} is not a valid InstructionFormat"
  | .name text => s!"unknown instruction format: {quoted text}"
  | .kind value => s!"'{value.kindName}' object has no attribute 'upper'"

def FormatFault.faultClass : FormatFault → FaultClass
  | .number _ | .name _ => .value
  | .kind _ => .attribute

/-- The format whose name is a text in letters of any case. -/
def Format.ofText? (text : Text) : Option Format :=
  ofName? (latinUpperText text.toChars)

/-- The format that a value names: by number, where true counts as one and
false as zero, or by name. -/
def Format.ofJson (value : Json) : Except FormatFault Format :=
  match value with
  | .int n => (ofNumber? n).elim (.error (.number value)) .ok
  | .bool b => (ofNumber? b.toNat).elim (.error (.number value)) .ok
  | .text s => (ofText? s).elim (.error (.name s)) .ok
  | _ => .error (.kind value)

inductive OpcodeFault
  | boolean
  | kind
  | malformed (text : Text)
  | tooManyDigits (count : Nat)
  deriving DecidableEq, Repr

/-- A text that is no literal is quoted with at most two hundred characters. -/
def OpcodeFault.message : OpcodeFault → String
  | .boolean => "opcode must be an integer or numeric string"
  | .kind => "int() can't convert non-string with explicit base"
  | .malformed text =>
    "invalid literal for int() with base 0: " ++ String.ofList ((quotedChars text).take 200)
  | .tooManyDigits count => tooManyDigitsMessage count

def OpcodeFault.faultClass : OpcodeFault → FaultClass
  | .boolean | .kind => .type
  | .malformed _ | .tooManyDigits _ => .value

/-- The operation code that a value gives, as a number or as a literal. -/
def opcodeOfJson : Json → Except OpcodeFault Int
  | .bool _ => .error .boolean
  | .int n => .ok n
  | .text s =>
    match readLiteral s.toChars with
    | .ok n => .ok n
    | .error .malformed => .error (.malformed s)
    | .error (.tooManyDigits count) => .error (.tooManyDigits count)
  | _ => .error .kind

/-- Why an item of the instruction list is no entry: it has no members, lacks
one, or has an operation code of a wrong kind. -/
inductive ItemFault
  | noMembers (item : Json)
  | missing (name : Text)
  | opcode (fault : OpcodeFault)

/-- A fault in words. A missing member is told by its name alone. -/
def ItemFault.message : ItemFault → String
  | .noMembers (.list _) => "list indices must be integers or slices, not str"
  | .noMembers (.text _) => "string indices must be integers, not 'str'"
  | .noMembers item => s!"'{item.kindName}' object is not subscriptable"
  | .missing name => quoted name
  | .opcode fault => fault.message

inductive DocumentFault
  | notAnObject (value : Json)
  | instructionsNotAList
  | badItem (item : Json) (fault : ItemFault)
  | format (fault : FormatFault)
  | opcode (fault : OpcodeFault)
  | mnemonicNotText (value : Json)
  | table (fault : TableFault)
  | flags (value : Json)

/-- A fault in words. What is wrong with an item is told together with it. -/
def DocumentFault.message : DocumentFault → String
  | .notAnObject value => s!"registry must be an object, got {value.kindName}"
  | .instructionsNotAList => "registry 'instructions' must be a list"
  | .badItem item fault => s!"invalid registry entry {item.display}: {fault.message}"
  | .format fault => fault.message
  | .opcode fault => fault.message
  | .mnemonicNotText value => s!"mnemonic must be a string: {value.display}"
  | .table (.opcode (.overflow value signed width)) =>
    s!"invalid registry: {(BitFault.overflow value signed width).message}"
  | .table fault => fault.message
  | .flags value => s!"invalid registry: '{value.kindName}' object is not iterable"

/-- What is wrong with an item, an operation code that does not fit its slot
and flags that cannot be listed are told as unfit values. -/
def DocumentFault.faultClass : DocumentFault → FaultClass
  | .notAnObject _ | .instructionsNotAList | .badItem .. | .mnemonicNotText _ | .flags _ => .value
  | .format fault => fault.faultClass
  | .opcode fault => fault.faultClass
  | .table fault =>
    if fault.faultClass = .encoding .widthOverflow then .value else fault.faultClass

namespace Registry

variable [Machine]

def itemMember (item : Json) (name : Text) : Except DocumentFault Json :=
  match item with
  | .object members =>
    match Json.member? name members with
    | some value => .ok value
    | none => .error (.badItem item (.missing name))
  | _ => .error (.badItem item (.noMembers item))

/-- The operation code of an item. A text that is no literal is reported by
itself, a value of a wrong kind together with the item. -/
def itemOpcode (item value : Json) : Except DocumentFault Int :=
  match opcodeOfJson value with
  | .ok n => .ok n
  | .error fault =>
    .error (if fault.faultClass = .type then .badItem item (.opcode fault) else .opcode fault)

/-- The entry that an item of the instruction list describes. Its members are
looked at in the order mnemonic, format, operation code; that the mnemonic is
a text is asked last. -/
def entryOfJson (item : Json) : Except DocumentFault Entry := do
  let mnemonic ← itemMember item "mnemonic".toList
  let format ← (Format.ofJson (← itemMember item "format".toList)).mapError .format
  let opcode ← itemOpcode item (← itemMember item "opcode".toList)
  match mnemonic with
  | .text key => return ⟨key, format, opcode⟩
  | _ => throw (.mnemonicNotText mnemonic)

/-- The flags that a value lists: its items, its characters or the names of
its members. -/
def flagsOfJson : Json → Except DocumentFault (List Json)
  | .list items => .ok items
  | .text s => .ok (s.map fun c => .text [c])
  | .object members => .ok (members.map fun (name, _) => .text name)
  | value => .error (.flags value)

/-- The registry that a value describes. Entries are checked before the flags
are looked at. -/
def ofJson (value : Json) : Except DocumentFault Registry :=
  match value with
  | .object members =>
    match (Json.member? "instructions".toList members).getD (.list []) with
    | .list items => do
      let entries ← items.mapM entryOfJson
      (checkEntries [] entries).mapError .table
      let flags ← flagsOfJson
        ((Json.member? "index_to_flags".toList members).getD (.list defaultFlags))
      return ⟨entries, flags⟩
    | _ => .error .instructionsNotAList
  | _ => .error (.notAnObject value)

end Registry

end WordAssembler
