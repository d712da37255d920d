import Mathlib.Algebra.GroupWithZero.Nat
import WordAssembler.Proofs.Operand.Grammar

namespace WordAssembler

theorem tokenColumn_eq_sum (pieces : List (List Char)) (index : Nat) :
    tokenColumn pieces index = ((pieces.take index).map (·.length + 1)).sum := by
  rw [tokenColumn, List.sum_eq_foldl, List.foldl_map]

theorem tokenColumn_cons_succ (first : List Char) (others : List (List Char)) (index : Nat) :
    tokenColumn (first :: others) (index + 1) = first.length + 1 + tokenColumn others index := by
  rw [tokenColumn_eq_sum, tokenColumn_eq_sum, List.take_succ_cons, List.map_cons, List.sum_cons]

/-- Every piece but the first one has a mark before it, and its column is the
length of what stands before it, with the mark. -/
theorem exists_intercalate_eq (mark : Char) {pieces : List (List Char)} {index : Nat}
    {piece : List Char} (atIndex : pieces[index + 1]? = some piece) :
    ∃ before after, List.intercalate [mark] pieces = before ++ mark :: (piece ++ after) ∧
      before.length + 1 = tokenColumn pieces (index + 1) := by
  -- The column of a piece grows with each piece before it, so the index goes down with them.
  induction pieces generalizing index with
  | nil => cases atIndex
  | cons first others ih =>
    rw [List.getElem?_cons_succ] at atIndex
    cases others with
    | nil => cases atIndex
    | cons second rest =>
      rw [List.intercalate_cons_cons, tokenColumn_cons_succ]
      cases index with
      | zero =>
        obtain rfl : second = piece := Option.some.inj atIndex
        obtain ⟨after, starts⟩ : ∃ after, List.intercalate [mark] (second :: rest) =
            second ++ after := by
          cases rest with
          | nil => exact ⟨[], by rw [List.intercalate_singleton, List.append_nil]⟩
          | cons third tail => exact ⟨_, by rw [List.intercalate_cons_cons, List.append_assoc]⟩
        exact ⟨first, after, by rw [starts, List.append_assoc]; rfl, rfl⟩
      | succ index =>
        obtain ⟨before, after, split, column⟩ := ih atIndex
        refine ⟨first ++ mark :: before, after, ?_, ?_⟩
        · rw [split]
          simp only [List.append_assoc, List.cons_append, List.nil_append]
        · rw [← column, List.length_append, List.length_cons]
          omega

/-- A token after the first one stands at its column, after a comma. -/
theorem exists_line_eq {line piece : List Char} {index : Nat} (later : 0 < index)
    (atIndex : (tokens line)[index]? = some piece) :
    ∃ before after, line = before ++ ',' :: (piece ++ after) ∧
      before.length + 1 = tokenColumn (tokens line) index := by
  obtain ⟨j, rfl⟩ := Nat.exists_eq_succ_of_ne_zero (Nat.ne_of_gt later)
  obtain ⟨before, after, split, column⟩ := exists_intercalate_eq ',' atIndex
  rw [tokens, intercalate_separated] at split
  exact ⟨before, after, split, column⟩

/-- The first token of a line holds its mnemonic and is no operand of any format. -/
theorem Format.token_index_ne_zero (format : Format) :
    ∀ p ∈ format.grammar, p.2 ≠ .token 0 ∧ p.2 ≠ .optionalToken 0 := by
  cases format <;> decide

end WordAssembler
