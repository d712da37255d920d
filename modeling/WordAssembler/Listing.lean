import WordAssembler.Assembly

namespace WordAssembler

/-- A list in pieces of `n` items, the last of which may be shorter. A piece
holds at least one item. -/
def pieces {α : Type} (n : Nat) : List α → List (List α)
  | [] => []
  | first :: rest => (first :: rest.take (n - 1)) :: pieces n (rest.drop (n - 1))
termination_by items => items.length
decreasing_by
  simp only [List.length_drop, List.length_cons]
  omega

/-- Words in octal digits, `perLine` of them to a line. A negative number leaves
no lines to fill, and zero is refused. -/
def octalDump (words : List Word) (perLine : Int) : Option String :=
  if perLine = 0 then none
  else if perLine < 0 then some ""
  else
    let rows := (pieces perLine.toNat words).map fun row =>
      String.intercalate " " (row.map fun w => String.ofList w.octal)
    some (String.intercalate "\n" rows)

def noWordsPerLineMessage : String :=
  "range() arg 3 must not be zero"

def octalText (words : List Word) : String :=
  (octalDump words 8).getD ""

def binaryText (words : List Word) : String :=
  String.intercalate "\n" (words.map fun w => String.ofList w.binary)

def listingRow (octal : Bool) (line : EncodedLine) : String :=
  let word := if octal then line.word.octal else line.word.binary
  String.ofList (padStart ' ' 4 (Nat.toDigits 10 line.number) ++ ' ' :: ' ' :: word ++
    ' ' :: ' ' :: line.text)

def listingText (octal : Bool) (lines : List EncodedLine) : String :=
  String.intercalate "\n" (lines.map (listingRow octal))

end WordAssembler
