import WordAssembler.Text.Split

namespace WordAssembler

/-- A code point is a character or half of a surrogate pair, which escapes can
write without the other half. Halves are numbered from the first one on. -/
inductive CodePoint
  | char (c : Char)
  | half (offset : Fin 0x800)
  deriving DecidableEq, Repr

def CodePoint.isBlank : CodePoint → Bool
  | .char c => WordAssembler.isBlank c
  | .half _ => false

/-- A text in which halves of surrogate pairs may stand for themselves. What is
decoded from bytes consists of characters only. -/
abbrev Text := List CodePoint

namespace Text

def ofChars (s : List Char) : Text :=
  s.map .char

instance : Coe (List Char) Text := ⟨ofChars⟩

/-- The characters of a text, where each half of a pair is replaced. No
numeral and no name holds the character that replaces it. -/
def toChars (t : Text) : List Char :=
  t.map fun
    | .char c => c
    | .half _ => '\ufffd'

def trim (t : Text) : Text :=
  ((t.dropWhile CodePoint.isBlank).reverse.dropWhile CodePoint.isBlank).reverse

@[simp] theorem toChars_ofChars (s : List Char) : toChars (ofChars s) = s := by
  simp only [toChars, ofChars, List.map_map, Function.comp_def, List.map_id']

@[simp] theorem ofChars_inj {s s' : List Char} : ofChars s = ofChars s' ↔ s = s' := by
  refine ⟨fun same => ?_, congrArg ofChars⟩
  rw [← toChars_ofChars s, same, toChars_ofChars]

@[simp] theorem length_ofChars (s : List Char) : (ofChars s).length = s.length :=
  List.length_map _

@[simp] theorem trim_ofChars (s : List Char) :
    trim (ofChars s) = ofChars (WordAssembler.trim s) := by
  have blank : CodePoint.isBlank ∘ CodePoint.char = isBlank := rfl
  simp only [trim, ofChars, List.dropWhile_map, ← List.map_reverse, blank, WordAssembler.trim,
    trimStart, trimEnd]

end Text

end WordAssembler
