import WordAssembler.Proofs.Listing.Dump

namespace WordAssembler

theorem dropWhile_padStart {fill : Char} {s : List Char} (someText : s ≠ []) (absent : fill ∉ s)
    (width : Nat) (rest : List Char) :
    (padStart fill width s ++ rest).dropWhile (· = fill) = s ++ rest := by
  obtain ⟨first, others, rfl⟩ := List.exists_cons_of_ne_nil someText
  have other : first ≠ fill := by
    rintro rfl
    exact absent (List.mem_cons_self ..)
  have filled : ∀ c ∈ List.replicate (width - (first :: others).length) fill,
      decide (c = fill) = true := fun c member => decide_eq_true (List.eq_of_mem_replicate member)
  rw [padStart, List.append_assoc, List.dropWhile_append_of_pos filled, List.cons_append,
    List.dropWhile_cons, if_neg (by rwa [decide_eq_true_eq])]

/-- The digits of a word in octal or in binary. -/
def shownDigits (octal : Bool) (w : Word) : List Char :=
  if octal then w.octal else w.binary

def shownRadix (octal : Bool) : Nat :=
  if octal then 8 else 2

/-- How many digits show a word. -/
def shownWidth (octal : Bool) : Nat :=
  if octal then 6 else wordWidth

theorem writesWords_shownDigits (octal : Bool) :
    WritesWords (shownDigits octal) (shownRadix octal) (shownWidth octal) := by
  cases octal with
  | true => exact writesWords_octal
  | false => exact writesWords_binary

/-- The line number in a row, behind the spaces that fill its column. -/
def rowNumber (row : List Char) : List Char :=
  (row.dropWhile (· = ' ')).takeWhile Char.isDigit

/-- What stands in a row two columns behind the line number. -/
def afterRowNumber (row : List Char) : List Char :=
  ((row.dropWhile (· = ' ')).dropWhile Char.isDigit).drop 2

/-- The word in a row, as it is written there. -/
def rowWord (octal : Bool) (row : List Char) : List Char :=
  (afterRowNumber row).take (shownWidth octal)

/-- Reads a row of a listing. The line number may take any number of digits, the word takes
always the same, and all that stands two columns behind it is the instruction. -/
def readListingRow (octal : Bool) (row : List Char) : EncodedLine where
  number := Nat.ofDigitChars 10 (rowNumber row) 0
  text := (afterRowNumber row).drop (shownWidth octal + 2)
  word := Word.ofInt (Nat.ofDigitChars (shownRadix octal) (rowWord octal row) 0)

theorem toList_listingRow (octal : Bool) (line : EncodedLine) :
    (listingRow octal line).toList = padStart ' ' 4 (Nat.toDigits 10 line.number) ++
      ' ' :: ' ' :: (shownDigits octal line.word ++ ' ' :: ' ' :: line.text) := by
  rw [listingRow, String.toList_ofList, List.append_assoc]
  rfl

section

variable (octal : Bool) (line : EncodedLine)

theorem dropWhile_listingRow :
    (listingRow octal line).toList.dropWhile (· = ' ') = Nat.toDigits 10 line.number ++
      ' ' :: ' ' :: (shownDigits octal line.word ++ ' ' :: ' ' :: line.text) := by
  rw [toList_listingRow]
  refine dropWhile_padStart Nat.toDigits_ne_nil (fun member => ?_) 4 _
  exact absurd (isDigit_of_mem_toDigits member) (by decide)

theorem rowNumber_listingRow :
    rowNumber (listingRow octal line).toList = Nat.toDigits 10 line.number := by
  rw [rowNumber, dropWhile_listingRow,
    List.takeWhile_append_of_pos fun c member => isDigit_of_mem_toDigits member,
    List.takeWhile_cons_of_neg (by decide), List.append_nil]

theorem afterRowNumber_listingRow :
    afterRowNumber (listingRow octal line).toList =
      shownDigits octal line.word ++ ' ' :: ' ' :: line.text := by
  rw [afterRowNumber, dropWhile_listingRow,
    List.dropWhile_append_of_pos fun c member => isDigit_of_mem_toDigits member,
    List.dropWhile_cons_of_neg (by decide)]
  rfl

theorem rowWord_listingRow :
    rowWord octal (listingRow octal line).toList = shownDigits octal line.word := by
  rw [rowWord, afterRowNumber_listingRow, ← (writesWords_shownDigits octal).length line.word,
    List.take_left]

/-- A row gives back its line, unless the word stores more than its width. -/
theorem readListingRow_listingRow (canonical : Bits.Canonical line.word) :
    readListingRow octal (listingRow octal line).toList = line := by
  have writes := writesWords_shownDigits octal
  have text : (afterRowNumber (listingRow octal line).toList).drop (shownWidth octal + 2) =
      line.text := by
    rw [afterRowNumber_listingRow, ← List.drop_drop, ← writes.length line.word, List.drop_left]
    rfl
  rw [readListingRow, text, rowNumber_listingRow, rowWord_listingRow, writes.value,
    Word.ofInt_toNat canonical, Nat.ofDigitChars_ten_toDigits]

end

/-- Instructions that stand in one line each are listed in one row each. -/
theorem separated_listingText {lines : List EncodedLine} (someLine : lines ≠ [])
    (inLine : ∀ line ∈ lines, '\n' ∉ line.text) (octal : Bool) :
    separated '\n' (listingText octal lines).toList =
      lines.map fun line => (listingRow octal line).toList := by
  have joined : (listingText octal lines).toList =
      List.intercalate ['\n'] (lines.map fun line => (listingRow octal line).toList) := by
    rw [listingText, String.toList_intercalate, List.map_map]
    rfl
  rw [joined]
  refine separated_intercalate ?_ ?_
  · rwa [ne_eq, List.map_eq_nil_iff]
  · rw [List.forall_mem_map]
    intro line member
    have number : '\n' ∉ padStart ' ' 4 (Nat.toDigits 10 line.number) := by
      intro inColumn
      rcases List.mem_append.mp inColumn with filled | written
      · exact absurd (List.eq_of_mem_replicate filled) (by decide)
      · exact absurd (isDigit_of_mem_toDigits written) (by decide)
    have word : '\n' ∉ shownDigits octal line.word :=
      (writesWords_shownDigits octal).not_mem_of_not_isDigit rfl line.word
    simp only [toList_listingRow, List.mem_append, List.mem_cons, not_or]
    exact ⟨number, by decide, by decide, word, by decide, by decide, inLine line member⟩

end WordAssembler
