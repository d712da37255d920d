import WordAssembler.Proofs.Assembly.Interruption
import WordAssembler.Proofs.Assembly.Numbering
import WordAssembler.Proofs.Operand.Column

namespace WordAssembler

/-- The instruction of a line stands behind the blanks at its start, and what is
removed behind it changes neither. -/
theorem exists_raw_eq {raw : List Char} (someText : instructionText raw ≠ []) :
    ∃ rest, raw = raw.takeWhile isBlank ++ (instructionText raw ++ rest) ∧
      indentWidth raw = (raw.takeWhile isBlank).length := by
  have kept : withoutComment raw <+: raw :=
    (List.rdropWhile_prefix isBlank _).trans (List.takeWhile_prefix _)
  obtain ⟨rest, split⟩ := kept
  have parts : (withoutComment raw).takeWhile isBlank ++ instructionText raw =
      withoutComment raw := List.takeWhile_append_dropWhile
  have lengths := congrArg List.length parts
  rw [List.length_append] at lengths
  have positive := List.length_pos_iff.mpr someText
  -- The blanks at the start end before the comment does, at the instruction.
  have sameBlanks : raw.takeWhile isBlank = (withoutComment raw).takeWhile isBlank := by
    conv_lhs => rw [← split, List.takeWhile_append, if_neg (by omega)]
  refine ⟨rest, ?_, ?_⟩
  · rw [sameBlanks, ← List.append_assoc, parts, split]
  · rw [sameBlanks, indentWidth]
    omega

theorem findIdx?_not_isBlank {raw : List Char} (someText : instructionText raw ≠ []) :
    raw.findIdx? (fun c => !isBlank c) = some (raw.takeWhile isBlank).length := by
  have solid : ∃ c ∈ raw, (!isBlank c) = true := by
    by_contra blank
    have whole : raw.takeWhile isBlank = raw := by
      refine List.takeWhile_eq_self_iff.mpr fun c member => ?_
      by_contra other
      exact blank ⟨c, member, by rw [Bool.eq_false_iff.mpr other]; rfl⟩
    obtain ⟨rest, split, _⟩ := exists_raw_eq someText
    have lengths := congrArg List.length split
    have positive := List.length_pos_iff.mpr someText
    rw [whole, List.length_append, List.length_append] at lengths
    omega
  rw [List.findIdx?_eq_some_of_exists solid, List.takeWhile_eq_take_findIdx_not, List.length_take,
    Nat.min_eq_left List.findIdx_le_length]

/-- Reading a line stops at an operand that is at fault: those before it in the
order of the format are read. -/
structure StopsAt (r : Registry) (line : List Char) (entry : Entry) (p : Field × Place)
    (e : LineError) : Prop where
  registered : r.find? (mnemonicKey line) = some entry
  first : ∃ before after, entry.format.grammar = before ++ p :: after ∧ ∀ q ∈ before, ∃ value,
    readPlace line (entry.format.column (mnemonicKey line)) q.1.label q.2 = .ok value
  fails : readPlace line (entry.format.column (mnemonicKey line)) p.1.label p.2 =
    .error (.reported e)

theorem encodeLine_eq_reported [Machine] {r : Registry} {line : List Char} {e : LineError}
    (failed : encodeLine r line = .error (.reported e)) :
    (r.find? (mnemonicKey line) = none ∧ e = .unknownOpcode (mnemonicKey line)) ∨
      ∃ entry p, StopsAt r line entry p e := by
  rcases encodeLine_stops_iff.mp failed with ⟨unknown, equal⟩ | ⟨entry, found, stops⟩
  · exact Or.inl ⟨unknown, LineFault.reported.inj equal⟩
  · obtain ⟨before, p, after, split, through, atPlace⟩ := readOperands_eq_error_iff.mp stops
    exact Or.inr ⟨entry, p, found, ⟨before, after, split, through⟩, atPlace⟩

/-- Where the columns of a diagnostic lie in a raw line if it is about the operand
at a place: at the operand column, at a token, or around the whole instruction if
there is no such token. -/
def Place.Marks (place : Place) (raw : List Char) (column start stop : Nat) : Prop :=
  match place with
  | .column | .tail => start = (raw.takeWhile isBlank).length + column + 1
  | .token index | .optionalToken index =>
    match (tokens (instructionText raw))[index]? with
    | some piece =>
      raw.extract (start - 1) (start - 1 + piece.length) = piece ∧
        2 ≤ start ∧ raw[start - 2]? = some ','
    | none => raw.extract (start - 1) (stop - 1) = instructionText raw

theorem extract_append_append (before piece after : List Char) :
    (before ++ (piece ++ after)).extract before.length (before.length + piece.length) = piece := by
  rw [List.extract_eq_take_drop, List.drop_left, Nat.add_sub_cancel_left, List.take_left]

theorem token_in_raw {raw piece : List Char} {index start : Nat}
    (someText : instructionText raw ≠ []) (later : 0 < index)
    (atIndex : (tokens (instructionText raw))[index]? = some piece)
    (atStart : start = indentWidth raw + tokenColumn (tokens (instructionText raw)) index + 1) :
    raw.extract (start - 1) (start - 1 + piece.length) = piece ∧
      2 ≤ start ∧ raw[start - 2]? = some ',' := by
  obtain ⟨rest, split, indent⟩ := exists_raw_eq someText
  obtain ⟨before, after, line, column⟩ := exists_line_eq later atIndex
  -- The raw line is cut at the comma before the token, and once more behind it.
  have upToComma : raw = (raw.takeWhile isBlank ++ before) ++ ',' :: (piece ++ (after ++ rest)) := by
    conv_lhs => rw [split, line]
    simp only [List.append_assoc, List.cons_append]
  have comma : (raw.takeWhile isBlank ++ before).length = start - 2 := by
    rw [List.length_append]
    omega
  generalize raw.takeWhile isBlank ++ before = lead at upToComma comma
  have throughComma : raw = (lead ++ [',']) ++ (piece ++ (after ++ rest)) := by
    rw [upToComma, List.append_assoc, List.singleton_append]
  have first : (lead ++ [',']).length = start - 1 := by
    rw [List.length_append, List.length_singleton]
    omega
  refine ⟨?_, by omega, ?_⟩
  · have found := extract_append_append (lead ++ [',']) piece (after ++ rest)
    rwa [← throughComma, first] at found
  · rw [upToComma, ← comma, List.getElem?_append_right (Nat.le_refl _), Nat.sub_self,
      List.getElem?_cons_zero]

theorem instruction_in_raw {raw : List Char} (someText : instructionText raw ≠ []) :
    raw.extract (indentWidth raw) (indentWidth raw + (instructionText raw).length) =
      instructionText raw := by
  obtain ⟨rest, split, indent⟩ := exists_raw_eq someText
  have found := extract_append_append (raw.takeWhile isBlank) (instructionText raw) rest
  rwa [← split, ← indent] at found

theorem ofFinding_of_column {e : LineError} {column : Nat} (atColumn : e.column = some (column : Int))
    (line : Int) (text : List Char) (indent : Nat) :
    Diagnostic.ofFinding e.finding line text indent = ⟨e.kind.code, e.message,
      ⟨line, (indent + column + 1 : Nat), (indent + column + 2 : Nat)⟩⟩ := by
  simp only [Diagnostic.ofFinding, LineError.finding, atColumn]
  rfl

theorem ofFinding_of_no_column {e : LineError} (nowhere : e.column = none) (line : Int)
    (text : List Char) (indent : Nat) :
    Diagnostic.ofFinding e.finding line text indent = ⟨e.kind.code, e.message,
      ⟨line, (indent + 1 : Nat), (indent + text.length + 1 : Nat)⟩⟩ := by
  simp only [Diagnostic.ofFinding, LineError.finding, nowhere]
  rfl

namespace StopsAt

variable {r : Registry} {raw : List Char} {entry : Entry} {p : Field × Place} {e : LineError}

theorem token_index_pos {line : List Char} (stops : StopsAt r line entry p e) {index : Nat}
    (isToken : p.2 = .token index ∨ p.2 = .optionalToken index) : 0 < index := by
  obtain ⟨before, after, split, _⟩ := stops.first
  have inGrammar : p ∈ entry.format.grammar := by
    rw [split]
    exact List.mem_append_cons_self
  obtain ⟨notToken, notOptional⟩ := entry.format.token_index_ne_zero p inGrammar
  refine Nat.pos_of_ne_zero ?_
  rintro rfl
  exact isToken.elim notToken notOptional

theorem exists_marks (stops : StopsAt r (instructionText raw) entry p e)
    (someText : instructionText raw ≠ []) (line : Int) :
    ∃ start stop : Nat,
      Diagnostic.ofFinding e.finding line (instructionText raw) (indentWidth raw) =
        ⟨e.kind.code, e.message, ⟨line, start, stop⟩⟩ ∧ 1 ≤ start ∧ start < stop ∧
      p.2.Marks raw (entry.format.column (mnemonicKey (instructionText raw))) start stop := by
  obtain ⟨fault, equal⟩ := readPlace_reported stops.fails
  have column : e.column = operandColumn? (instructionText raw)
      (entry.format.column (mnemonicKey (instructionText raw))) p.2 := by
    rw [equal]
    rfl
  -- The first token has no comma before it, but no format reads an operand there.
  have tokenLater := @stops.token_index_pos
  obtain ⟨field, place⟩ := p
  cases place with
  | column | tail =>
    obtain ⟨_, _, indent⟩ := exists_raw_eq someText
    refine ⟨_, _, ofFinding_of_column column line _ _, by omega, by omega, ?_⟩
    rw [Place.Marks, indent]
  | token index | optionalToken index =>
    have later : 0 < index := tokenLater (by simp)
    rw [operandColumn?] at column
    cases atIndex : (tokens (instructionText raw))[index]? with
    | some piece =>
      rw [atIndex] at column
      refine ⟨_, _, ofFinding_of_column column line _ _, by omega, by omega, ?_⟩
      simp only [Place.Marks, atIndex]
      exact token_in_raw someText later atIndex rfl
    | none =>
      rw [atIndex] at column
      have positive := List.length_pos_iff.mpr someText
      refine ⟨_, _, ofFinding_of_no_column column line _ _, by omega, by omega, ?_⟩
      simp only [Place.Marks, atIndex, Nat.add_sub_cancel]
      exact instruction_in_raw someText

end StopsAt

/-- Where a diagnostic of a source has to point: into the raw line under its number,
at the first character of an unknown mnemonic, at the place of the operand that is
at fault, or around the whole instruction if that operand is missing. -/
def Diagnostic.PointsBack [Machine] (d : Diagnostic) (r : Registry) (source : List Char) : Prop :=
  ∃ (n start stop : Nat) (raw : List Char) (e : LineError),
    (splitLines source)[n]? = some raw ∧
    d = ⟨e.kind.code, e.message, ⟨n + 1, start, stop⟩⟩ ∧ 1 ≤ start ∧ start < stop ∧
    ((r.find? (mnemonicKey (instructionText raw)) = none ∧
        e = .unknownOpcode (mnemonicKey (instructionText raw)) ∧
        raw.findIdx? (fun c => !isBlank c) = some (start - 1)) ∨
      ∃ entry p, StopsAt r (instructionText raw) entry p e ∧
        p.2.Marks raw (entry.format.column (mnemonicKey (instructionText raw))) start stop)

theorem diagnostic_points_back [Machine] {r : Registry} {source : List Char} {a : Assembly}
    {d : Diagnostic} (given : Assembly.ofSource r source = .ok a) (member : d ∈ a.diagnostics) :
    d.PointsBack r source := by
  obtain ⟨n, raw, e, atRaw, someText, failed, rfl⟩ := (Assembly.mem_diagnostics_iff given).mp member
  have number : ((1 + n : Nat) : Int) = n + 1 := by omega
  rw [number]
  rcases encodeLine_eq_reported failed with ⟨unknown, rfl⟩ | ⟨entry, p, stops⟩
  · obtain ⟨_, _, indent⟩ := exists_raw_eq someText
    refine ⟨n, _, _, raw, _, atRaw, ofFinding_of_column rfl _ _ _, by omega, by omega,
      Or.inl ⟨unknown, rfl, ?_⟩⟩
    rw [findIdx?_not_isBlank someText, indent]
    rfl
  · obtain ⟨start, stop, equal, positive, ordered, marks⟩ := stops.exists_marks someText (n + 1)
    exact ⟨n, start, stop, raw, e, atRaw, equal, positive, ordered,
      Or.inr ⟨entry, p, stops, marks⟩⟩

/-- A token that is no number, in an indented line with a comment. -/
theorem diagnostic_points_back_badAddress :
    ∃ a d, Assembly.ofSource .standard "; top\n\t LDR 1,2, x ;c".toList = .ok a ∧
      d ∈ a.diagnostics ∧ d.span = ⟨2, 11, 12⟩ ∧
      d.PointsBack .standard "; top\n\t LDR 1,2, x ;c".toList := by
  obtain ⟨a, d, given, diagnostics, span⟩ : ∃ a d,
      Assembly.ofSource .standard "; top\n\t LDR 1,2, x ;c".toList = .ok a ∧
      a.diagnostics = [d] ∧ d.span = ⟨2, 11, 12⟩ := ⟨_, _, rfl, rfl, rfl⟩
  have member : d ∈ a.diagnostics := by
    rw [diagnostics]
    exact List.mem_singleton_self d
  exact ⟨a, d, given, member, span, diagnostic_points_back given member⟩

end WordAssembler
