import Mathlib.Data.List.Basic
import WordAssembler.Text.Split

namespace WordAssembler

theorem separated_of_not_mem {mark : Char} {s : List Char} (absent : mark ∉ s) :
    separated mark s = [s] := by
  induction s with
  | nil => rfl
  | cons c rest ih =>
    rw [List.mem_cons, not_or] at absent
    obtain ⟨other, absentRest⟩ := absent
    rw [separated, if_neg (Ne.symm other), ih absentRest]

theorem separated_append_mark {mark : Char} {s : List Char} (absent : mark ∉ s)
    (rest : List Char) : separated mark (s ++ mark :: rest) = s :: separated mark rest := by
  induction s with
  | nil => rw [List.nil_append, separated, if_pos rfl]
  | cons c tail ih =>
    rw [List.mem_cons, not_or] at absent
    obtain ⟨other, absentTail⟩ := absent
    rw [List.cons_append, separated, if_neg (Ne.symm other), ih absentTail]

/-- Pieces without the mark are found again in their row. What stands before the
row belongs to the first piece. -/
theorem separated_append_intercalate {mark : Char} {s first : List Char}
    {others : List (List Char)} (absent : mark ∉ s)
    (pieces : ∀ piece ∈ first :: others, mark ∉ piece) :
    separated mark (s ++ List.intercalate [mark] (first :: others)) = (s ++ first) :: others := by
  induction others generalizing s first with
  | nil =>
    have whole : mark ∉ s ++ first := by
      rw [List.mem_append, not_or]
      exact ⟨absent, pieces first (List.mem_cons_self ..)⟩
    rw [List.intercalate_singleton, separated_of_not_mem whole]
  | cons second rest ih =>
    have whole : mark ∉ s ++ first := by
      rw [List.mem_append, not_or]
      exact ⟨absent, pieces first (List.mem_cons_self ..)⟩
    have later := ih List.not_mem_nil fun piece member =>
      pieces piece (List.mem_cons_of_mem _ member)
    rw [List.nil_append, List.nil_append] at later
    rw [List.intercalate_cons_cons, ← List.append_assoc, ← List.append_assoc,
      List.append_assoc (s ++ first), List.singleton_append, separated_append_mark whole, later]

/-- Pieces without the mark are found again in the text in which they are joined. -/
theorem separated_intercalate {mark : Char} {pieces : List (List Char)} (somePiece : pieces ≠ [])
    (solid : ∀ piece ∈ pieces, mark ∉ piece) :
    separated mark (List.intercalate [mark] pieces) = pieces := by
  obtain ⟨first, others, rfl⟩ := List.exists_cons_of_ne_nil somePiece
  exact separated_append_intercalate List.not_mem_nil solid

/-- What is put behind a text without a mark belongs to the last piece. -/
theorem exists_separated_append {mark : Char} {t : List Char} (absent : mark ∉ t)
    (s : List Char) : ∃ before last, separated mark s = before ++ [last] ∧
      separated mark (s ++ t) = before ++ [last ++ t] := by
  induction s with
  | nil => exact ⟨[], [], rfl, separated_of_not_mem absent⟩
  | cons c rest ih =>
    obtain ⟨before, last, split, extended⟩ := ih
    rw [List.cons_append, separated, separated, split, extended]
    by_cases isMark : c = mark
    · rw [if_pos isMark, if_pos isMark]
      exact ⟨[] :: before, last, rfl, rfl⟩
    · rw [if_neg isMark, if_neg isMark]
      cases before with
      | nil => exact ⟨[], c :: last, rfl, rfl⟩
      | cons first others => exact ⟨(c :: first) :: others, last, rfl, rfl⟩

theorem mem_of_mem_intercalate {mark c : Char} {pieces : List (List Char)}
    (member : c ∈ List.intercalate [mark] pieces) : c = mark ∨ ∃ piece ∈ pieces, c ∈ piece := by
  induction pieces with
  | nil => cases member
  | cons first others ih =>
    cases others with
    | nil =>
      rw [List.intercalate_singleton] at member
      exact Or.inr ⟨first, List.mem_cons_self .., member⟩
    | cons second rest =>
      rw [List.intercalate_cons_cons, List.mem_append, List.mem_append,
        List.mem_singleton] at member
      rcases member with (inFirst | isMark) | inRest
      · exact Or.inr ⟨first, List.mem_cons_self .., inFirst⟩
      · exact Or.inl isMark
      · rcases ih inRest with isMark | ⟨piece, inOthers, inPiece⟩
        · exact Or.inl isMark
        · exact Or.inr ⟨piece, List.mem_cons_of_mem _ inOthers, inPiece⟩

end WordAssembler
