import Mathlib.Data.List.Basic
import WordAssembler.Proofs.Text.Blank
import WordAssembler.Text.Split

namespace WordAssembler

theorem isLineBreak_of_isDigit {c : Char} (digit : c.isDigit) : isLineBreak c = false := by
  have range := isDigit_range digit
  simp only [isLineBreak, Bool.or_eq_false_iff, Bool.and_eq_false_iff, decide_eq_false_iff_not,
    beq_eq_false_iff_ne]
  omega

theorem splitLines_cons {c : Char} (inside : isLineBreak c = false) (rest : List Char) :
    splitLines (c :: rest) = (c :: (splitLines rest).headD []) :: (splitLines rest).tail := by
  rw [splitLines]
  · rw [if_neg (by rw [inside]; exact Bool.false_ne_true)]
    cases splitLines rest <;> rfl
  · rintro tail rfl
    cases inside

theorem splitLines_of_no_break {s : List Char} (someText : s ≠ [])
    (inside : ∀ c ∈ s, isLineBreak c = false) : splitLines s = [s] := by
  induction s with
  | nil => exact absurd rfl someText
  | cons c rest ih =>
    rw [List.forall_mem_cons] at inside
    rw [splitLines_cons inside.1]
    cases rest with
    | nil => rfl
    | cons d tail =>
      rw [ih (List.cons_ne_nil d tail) inside.2, List.headD_cons, List.tail_cons]

theorem splitLines_append_lineFeed {s : List Char} (inside : ∀ c ∈ s, isLineBreak c = false)
    (rest : List Char) : splitLines (s ++ '\n' :: rest) = s :: splitLines rest := by
  induction s with
  | nil => rfl
  | cons c tail ih =>
    rw [List.forall_mem_cons] at inside
    rw [List.cons_append, splitLines_cons inside.1, ih inside.2, List.headD_cons, List.tail_cons]

/-- Lines without breaks are found again in the text in which they are joined by
line feeds, but for an empty last one. -/
theorem exists_eq_splitLines_append {lines : List (List Char)}
    (inside : ∀ line ∈ lines, ∀ c ∈ line, isLineBreak c = false) :
    ∃ lost, lines = splitLines (List.intercalate ['\n'] lines) ++ lost ∧
      ∀ line ∈ lost, line = [] := by
  induction lines with
  | nil => exact ⟨[], rfl, by simp⟩
  | cons first others ih =>
    rw [List.forall_mem_cons] at inside
    cases others with
    | nil =>
      rw [List.intercalate_singleton]
      by_cases empty : first = []
      · exact ⟨[[]], by rw [empty]; rfl, by simp⟩
      · exact ⟨[], by rw [splitLines_of_no_break empty inside.1, List.append_nil], by simp⟩
    | cons second rest =>
      obtain ⟨lost, split, empty⟩ := ih inside.2
      refine ⟨lost, ?_, empty⟩
      rw [List.intercalate_cons_cons, List.append_assoc, List.singleton_append,
        splitLines_append_lineFeed inside.1, List.cons_append, ← split]

/-- Lines that hold something and no break are found again in the text in which
they are joined by line feeds. -/
theorem splitLines_intercalate {lines : List (List Char)} (someText : ∀ line ∈ lines, line ≠ [])
    (inside : ∀ line ∈ lines, ∀ c ∈ line, isLineBreak c = false) :
    splitLines (List.intercalate ['\n'] lines) = lines := by
  obtain ⟨lost, split, empty⟩ := exists_eq_splitLines_append inside
  have nothing : lost = [] := by
    refine List.eq_nil_iff_forall_not_mem.mpr fun line member => ?_
    have inLines : line ∈ lines := split ▸ List.mem_append_right _ member
    exact someText line inLines (empty line member)
  rw [nothing, List.append_nil] at split
  exact split.symm

theorem splitLines_ne_nil {s : List Char} (someText : s ≠ []) : splitLines s ≠ [] := by
  fun_cases splitLines s <;> simp_all

/-- No line holds the break that ended it, nor any other. -/
theorem not_isLineBreak_of_mem_splitLines {s line : List Char} (member : line ∈ splitLines s) :
    ∀ c ∈ line, isLineBreak c = false := by
  fun_induction splitLines s generalizing line with
  | case1 => cases member
  | case2 rest ih | case3 c rest _ ends ih =>
    rcases List.mem_cons.mp member with rfl | later
    · exact List.forall_mem_nil _
    · exact ih later
  | case4 c rest _ inside _ ih =>
    obtain rfl := List.mem_singleton.mp member
    exact List.forall_mem_singleton.mpr (Bool.eq_false_iff.mpr inside)
  | case5 c rest _ inside first others split ih =>
    rcases List.mem_cons.mp member with rfl | later
    · exact List.forall_mem_cons.mpr
        ⟨Bool.eq_false_iff.mpr inside, ih (split ▸ List.mem_cons_self ..)⟩
    · exact ih (split ▸ List.mem_cons_of_mem _ later)

/-- A break ends its line, whatever follows: only a carriage return may be the
first half of a break. -/
theorem splitLines_break_cons {c : Char} (ends : isLineBreak c = true) {rest : List Char}
    (whole : c = '\r' → rest.head? ≠ some '\n') :
    splitLines (c :: rest) = [] :: splitLines rest := by
  rw [splitLines]
  · rw [if_pos ends]
  · rintro tail rfl rfl
    exact whole rfl rfl

/-- Where a line feed stands, a text is cut into lines that do not touch, also if
the line feed is the second half of a break or another one follows. -/
theorem splitLines_append_cons_lineFeed (s t : List Char) :
    splitLines (s ++ '\n' :: t) = splitLines (s ++ ['\n']) ++ splitLines t := by
  fun_induction splitLines s with
  | case1 => rfl
  | case2 rest ih =>
    simp only [List.cons_append, splitLines, ih]
  | case3 c rest notPair ends ih =>
    by_cases alone : c = '\r' ∧ rest = []
    · rw [alone.1, alone.2]
      rfl
    · have whole : ∀ u : List Char, c = '\r' → (rest ++ u).head? ≠ some '\n' := by
        intro u isReturn
        cases rest with
        | nil => exact absurd ⟨isReturn, rfl⟩ alone
        | cons d tail =>
          intro feed
          exact notPair tail isReturn (congrArg (· :: tail) (Option.some.inj feed))
      have cut : ∀ u, splitLines (c :: rest ++ u) = [] :: splitLines (rest ++ u) := fun u =>
        splitLines_break_cons ends (whole u)
      rw [cut, cut, ih, List.cons_append]
  | case4 c rest _ inside _ ih | case5 c rest _ inside _ _ _ ih =>
    have solid := Bool.eq_false_iff.mpr inside
    obtain ⟨line, lines, split⟩ := List.exists_cons_of_ne_nil
      (splitLines_ne_nil (List.append_ne_nil_of_right_ne_nil rest (List.cons_ne_nil '\n' [])))
    simp only [List.cons_append, splitLines_cons solid, ih, split, List.headD_cons, List.tail_cons]

/-- A text that is empty or ends in a line feed has its lines before those of
whatever is put after it. -/
theorem splitLines_append {s : List Char} (ended : s = [] ∨ s.getLast? = some '\n')
    (t : List Char) : splitLines (s ++ t) = splitLines s ++ splitLines t := by
  rcases ended with rfl | last
  · rfl
  · obtain ⟨body, rfl⟩ := List.getLast?_eq_some_iff.mp last
    rw [List.append_assoc, List.singleton_append, splitLines_append_cons_lineFeed]

end WordAssembler
