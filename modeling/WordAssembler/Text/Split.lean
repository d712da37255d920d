import WordAssembler.Text.Character

namespace WordAssembler

def trimStart (s : List Char) : List Char :=
  s.dropWhile isBlank

def trimEnd (s : List Char) : List Char :=
  (s.reverse.dropWhile isBlank).reverse

def trim (s : List Char) : List Char :=
  trimEnd (trimStart s)

/-- The lines of a text without their breaks. A carriage return and a line
feed after it are one break, and nothing follows a break at the very end. -/
def splitLines : List Char → List (List Char)
  | [] => []
  | '\r' :: '\n' :: rest => [] :: splitLines rest
  | c :: rest =>
    if isLineBreak c then [] :: splitLines rest
    else
      match splitLines rest with
      | [] => [[c]]
      | line :: lines => (c :: line) :: lines

/-- The text with each carriage return, alone or before a line feed, written
as one line feed. -/
def unifyNewlines : List Char → List Char
  | [] => []
  | '\r' :: '\n' :: rest => '\n' :: unifyNewlines rest
  | c :: rest => (if c = '\r' then '\n' else c) :: unifyNewlines rest

/-- The pieces of a text between the occurrences of a mark. There is always at
least one piece, which may be empty. -/
def separated (mark : Char) : List Char → List (List Char)
  | [] => [[]]
  | c :: rest =>
    if c = mark then [] :: separated mark rest
    else
      match separated mark rest with
      | [] => [[c]]
      | first :: others => (c :: first) :: others

theorem separated_ne_nil (mark : Char) (s : List Char) : separated mark s ≠ [] := by
  cases s with
  | nil => simp [separated]
  | cons c rest =>
    simp only [separated]
    split
    · simp
    · split <;> simp

/-- The pieces joined by the mark are the text. -/
theorem intercalate_separated (mark : Char) (s : List Char) :
    List.intercalate [mark] (separated mark s) = s := by
  induction s with
  | nil => rfl
  | cons c rest ih =>
    obtain ⟨first, others, pieces⟩ := List.exists_cons_of_ne_nil (separated_ne_nil mark rest)
    rw [pieces] at ih
    by_cases h : c = mark
    · simp only [separated, h, if_true, pieces]
      simp only [List.intercalate, List.intersperse_cons_cons, List.flatten_cons] at ih ⊢
      rw [ih]
      rfl
    · cases others <;> simp_all [separated, List.intercalate]

end WordAssembler
