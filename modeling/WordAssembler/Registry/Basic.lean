import WordAssembler.Format
import WordAssembler.Json.Basic

namespace WordAssembler

/-- What a registry says about one mnemonic. The key is what a line starts
with, so it may end in a blank. -/
structure Entry where
  key : Text
  format : Format
  opcode : Int
  deriving DecidableEq, Repr

/-- A table of mnemonics in the order of their registration, and a table of
flags, which hold any values. -/
structure Registry where
  entries : List Entry
  flags : List Json

inductive TableFault
  | keyLength (key : Text)
  | duplicateKey (key : Text)
  | opcode (fault : BitFault)
  deriving DecidableEq, Repr

def TableFault.message : TableFault → String
  | .keyLength key => s!"mnemonic key must be 2 or 3 characters: {quoted key}"
  | .duplicateKey key => s!"duplicate mnemonic key: {quoted key}"
  | .opcode fault => fault.message

def TableFault.faultClass : TableFault → FaultClass
  | .keyLength _ | .duplicateKey _ => .value
  | .opcode fault => fault.faultClass

/-- Why no flag is given: there is none at an index, or the index is not even
written because it has too many digits. -/
inductive FlagFault
  | absent (index : Int)
  | unwritable
  deriving DecidableEq, Repr

def FlagFault.message : FlagFault → String
  | .absent index => s!"no flag registered for index {index}"
  | .unwritable => unwritableMessage

def FlagFault.faultClass : FlagFault → FaultClass
  | .absent _ => .index
  | .unwritable => .value

namespace Registry

variable [Machine]

/-- The flags of a registry that is given none. -/
def defaultFlags : List Json :=
  [.int 8, .int 4, .int 2, .int 1]

/-- Refuses an entry that cannot stand after those before it: its key has to
have two or three characters and to be new, and its operation code has to fit
its slot. The first of these that fails is reported. -/
def checkEntry (before : List Entry) (entry : Entry) : Except TableFault Unit :=
  if entry.key.length < 2 ∨ 3 < entry.key.length then .error (.keyLength entry.key)
  else if before.any (·.key == entry.key) then .error (.duplicateKey entry.key)
  else
    match checkFits entry.opcode opcodeSlot.width false with
    | .ok _ => .ok ()
    | .error fault => .error (.opcode fault)

/-- Refuses a list of entries at its first fault, given those before it in the
reverse order. -/
def checkEntries (before : List Entry) : List Entry → Except TableFault Unit
  | [] => .ok ()
  | entry :: rest => do
    checkEntry before entry
    checkEntries (entry :: before) rest

/-- The registry of a list of entries, unless one of them is refused. -/
def ofEntries (entries : List Entry) (flags : List Json) : Except TableFault Registry := do
  checkEntries [] entries
  return ⟨entries, flags⟩

def find? (r : Registry) (key : Text) : Option Entry :=
  r.entries.find? (·.key == key)

def format? (r : Registry) (key : Text) : Option Format :=
  (r.find? key).map (·.format)

def opcode? (r : Registry) (key : Text) : Option Int :=
  (r.find? key).map (·.opcode)

def contains (r : Registry) (key : Text) : Bool :=
  (r.find? key).isSome

/-- The first registered entry of an operation code. -/
def findOpcode? (r : Registry) (opcode : Int) : Option Entry :=
  r.entries.find? (·.opcode == opcode)

def flag? (r : Registry) (index : Int) : Option Json :=
  if index < 0 then none else r.flags[index.toNat]?

def flag (r : Registry) (index : Int) : Except FlagFault Json :=
  match r.flag? index with
  | some value => .ok value
  | none => .error (if Writable index then .absent index else .unwritable)

end Registry

def Entry.ofWord (key : String) (format : Format) (opcode : Int) : Entry :=
  ⟨key.toList, format, opcode⟩

/-- The instruction set that is used when no other is given. A mnemonic of two
letters other than `IN` is registered with the blank after it, because three
characters of a line are looked up. -/
def standardEntries : List Entry :=
  [.ofWord "LDR" .one 1, .ofWord "STR" .one 2, .ofWord "LDA" .one 3, .ofWord "AMR" .one 4,
    .ofWord "SMR" .one 5, .ofWord "AIR" .three 6, .ofWord "SIR" .three 7,
    .ofWord "JZ " .one 8, .ofWord "JNE" .one 9, .ofWord "JCC" .one 10, .ofWord "JMP" .two 11,
    .ofWord "JSR" .two 12, .ofWord "RFS" .four 13, .ofWord "SOB" .one 14,
    .ofWord "JGE" .one 15, .ofWord "MLT" .six 16, .ofWord "DVD" .six 17,
    .ofWord "TRR" .six 18, .ofWord "AND" .six 19, .ofWord "ORR" .six 20,
    .ofWord "NOT" .five 21, .ofWord "SRC" .seven 25, .ofWord "RRC" .seven 26,
    .ofWord "LDX" .two 33, .ofWord "STX" .two 34, .ofWord "IN" .eight 49,
    .ofWord "OUT" .eight 50, .ofWord "CHK" .eight 51]

def Registry.standard : Registry :=
  ⟨standardEntries, defaultFlags⟩

end WordAssembler
