import WordAssembler.File.Status
import WordAssembler.Log
import WordAssembler.Registry.Document
import WordAssembler.Text.Utf8

namespace WordAssembler

inductive LoadFault
  | access (fault : AccessFault)
  | nullCharacter
  | encoding (fault : Utf8Fault)
  | reading (text : List Char) (fault : Json.ReadFault)
  | document (fault : DocumentFault)

namespace LoadFault

def message (p : Path) : LoadFault → String
  | .access fault => fault.message p
  | .nullCharacter => "embedded null byte"
  | .encoding fault => fault.message
  | .reading text fault => fault.message text
  | .document fault => fault.message

def faultClass : LoadFault → FaultClass
  | .access _ => .system
  | .nullCharacter => .value
  | .encoding _ => .undecodable
  | .reading _ fault => fault.faultClass
  | .document fault => fault.faultClass

end LoadFault

/-- Decodes the bytes of a text file, whose line ends may be of any kind. -/
def fileText (bytes : List UInt8) : Except Utf8Fault (List Char) :=
  unifyNewlines <$> decodeUtf8 bytes

namespace Registry

variable [Machine]

def ofText (text : List Char) : Except LoadFault Registry :=
  match Json.read text with
  | .ok value => (ofJson value).mapError .document
  | .error fault => .error (.reading text fault)

/-- The registry that what is found at a path describes. Anything that can be
read will do, whether it is a file or not. -/
def ofFile : FileStatus → Except LoadFault Registry
  | .nullCharacter => .error .nullCharacter
  | .unreachable fault => .error (.access (.opening fault))
  | .file content | .other content => do
    ofText (← (fileText (← content.mapError .access)).mapError .encoding)

def loadRecord (p : Path) (r : Registry) : LogRecord :=
  ⟨.debug, "isa18.formats", s!"Loaded {r.entries.length} mnemonics from {String.ofList p.text}"⟩

end Registry

end WordAssembler
