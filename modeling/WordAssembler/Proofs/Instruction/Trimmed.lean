import WordAssembler.Proofs.Assembly.Interruption
import WordAssembler.Proofs.Operand.Trimmed

namespace WordAssembler

theorem encodeLine_outline_append_blanks [Machine] {r : Registry} {s blanks : List Char}
    (blank : ∀ c ∈ blanks, isBlank c) (sameKey : mnemonicKey (s ++ blanks) = mnemonicKey s) :
    (encodeLine r (s ++ blanks)).mapError LineFault.outline =
      (encodeLine r s).mapError LineFault.outline := by
  rw [encodeLine, encodeLine, mapError_map, mapError_map]
  refine congrArg _ ?_
  simp only [Instruction.read, sameKey]
  cases r.find? (mnemonicKey s) with
  | none => rfl
  | some entry =>
    simp only [mapError_bind, readOperands_append_blanks blank]

/-- A line of nothing but a mnemonic, with or without blanks behind it. -/
def BareMnemonic (line : List Char) : Prop :=
  ∃ blanks, line = mnemonicKey line ++ blanks ∧ ∀ c ∈ blanks, isBlank c

theorem mnemonicKey_length_le (line : List Char) : (mnemonicKey line).length ≤ 3 := by
  unfold mnemonicKey
  split <;> rw [List.length_take] <;> omega

theorem Format.length_le_column {key : List Char} (short : key.length ≤ 3) (format : Format) :
    key.length ≤ format.column key := by
  unfold column
  split <;> omega

/-- The operand that is read first stands at the operand column or takes all that
follows it. -/
theorem Format.exists_grammar_eq_cons (format : Format) :
    ∃ field place rest, format.grammar = (field, place) :: rest ∧
      (place = .column ∨ place = .tail) := by
  cases format <;> exact ⟨_, _, _, rfl, by decide⟩

/-- A mnemonic alone is never an instruction, whatever it is registered for. -/
theorem BareMnemonic.exists_reported [Machine] {line : List Char} (bare : BareMnemonic line)
    (r : Registry) : ∃ e, encodeLine r line = .error (.reported e) := by
  obtain ⟨blanks, split, blank⟩ := bare
  cases found : r.find? (mnemonicKey line) with
  | none =>
    exact ⟨_, encodeLine_stops_iff.mpr (Or.inl ⟨found, rfl⟩)⟩
  | some entry =>
    obtain ⟨field, place, rest, grammar, early⟩ := entry.format.exists_grammar_eq_cons
    have reach := entry.format.length_le_column (mnemonicKey_length_le line)
    have behind : ∀ c ∈ line.drop (entry.format.column (mnemonicKey line)), isBlank c := by
      have rest := congrArg (List.drop (entry.format.column (mnemonicKey line))) split
      rw [List.drop_append, List.drop_eq_nil_of_le reach, List.nil_append] at rest
      rw [rest]
      exact fun c member => blank c (List.mem_of_mem_drop member)
    obtain ⟨e, failed⟩ := readPlace_of_blank behind early field.label
    have stops : readOperands line entry.format (mnemonicKey line) = .error (.reported e) :=
      readOperands_eq_error_iff.mpr ⟨[], (field, place), rest, grammar, by simp, failed⟩
    exact ⟨e, encodeLine_stops_iff.mpr (Or.inr ⟨entry, found, stops⟩)⟩

/-- Whether a line that is reported has an unknown mnemonic or a malformed operand is
settled by its mnemonic. -/
theorem kind_of_reported [Machine] {r : Registry} {line : List Char} {e : LineError}
    (failed : encodeLine r line = .error (.reported e)) :
    e.kind = if r.contains (mnemonicKey line) then .malformedOperand else .unknownOpcode := by
  rcases encodeLine_stops_iff.mp failed with ⟨unknown, equal⟩ | ⟨entry, found, stops⟩
  · obtain rfl := LineFault.reported.inj equal
    rw [Registry.contains, unknown]
    rfl
  · obtain ⟨p, _, fault, column, rfl⟩ := readOperands_reported stops
    rw [Registry.contains, found]
    rfl

/-- A blank in the place of the second letter is no part of `IN`. -/
theorem mnemonicKey_cons_blanks {blanks : List Char} (blank : ∀ c ∈ blanks, isBlank c)
    (c : Char) : mnemonicKey (c :: blanks) = c :: blanks.take 2 := by
  have other : ['I', 'N'].isPrefixOf (c :: blanks) = false := by
    cases blanks with
    | nil => simp [List.isPrefixOf]
    | cons d rest =>
      have second : ('N' == d) = false := by
        rw [beq_eq_false_iff_ne]
        rintro rfl
        have letter := blank 'N' (List.mem_cons_self ..)
        contradiction
      simp [List.isPrefixOf, second]
  rw [mnemonicKey, other, if_neg Bool.false_ne_true, List.take_succ_cons]

theorem mnemonicKey_blanks {blanks : List Char} (blank : ∀ c ∈ blanks, isBlank c) :
    mnemonicKey blanks = blanks.take 3 := by
  cases blanks with
  | nil => rfl
  | cons c rest =>
    rw [List.forall_mem_cons] at blank
    rw [mnemonicKey_cons_blanks blank.2, List.take_succ_cons]

theorem bareMnemonic_of_take {s blanks : List Char} {count : Nat}
    (blank : ∀ c ∈ blanks, isBlank c) (key : mnemonicKey (s ++ blanks) = s ++ blanks.take count) :
    BareMnemonic (s ++ blanks) :=
  ⟨blanks.drop count, by rw [key, List.append_assoc, List.take_append_drop],
    fun c member => blank c (List.mem_of_mem_drop member)⟩

/-- Blanks behind a line are a part of its mnemonic only if that is all it holds. -/
theorem mnemonicKey_append_blanks {blanks : List Char} (blank : ∀ c ∈ blanks, isBlank c)
    (s : List Char) : mnemonicKey (s ++ blanks) = mnemonicKey s ∨
      BareMnemonic (s ++ blanks) ∧ BareMnemonic s := by
  -- A mnemonic has three letters, or the two of `IN`: behind so many, blanks do not count.
  match s with
  | [] =>
    exact Or.inr ⟨bareMnemonic_of_take blank (mnemonicKey_blanks blank), [], rfl, by simp⟩
  | [c] =>
    have alone : mnemonicKey [c] = [c] := mnemonicKey_cons_blanks (by simp) c
    exact Or.inr ⟨bareMnemonic_of_take blank (mnemonicKey_cons_blanks blank c), [],
      by rw [alone]; rfl, by simp⟩
  | [c, d] =>
    have starts : ['I', 'N'].isPrefixOf ([c, d] ++ blanks) = ['I', 'N'].isPrefixOf [c, d] := rfl
    by_cases short : ['I', 'N'].isPrefixOf [c, d]
    · refine Or.inl ?_
      rw [mnemonicKey, mnemonicKey, starts, if_pos short, if_pos short]
      rfl
    · have long : mnemonicKey ([c, d] ++ blanks) = [c, d] ++ blanks.take 1 := by
        rw [mnemonicKey, starts, if_neg short]
        rfl
      have alone : mnemonicKey [c, d] = [c, d] := by
        rw [mnemonicKey, if_neg short]
        rfl
      exact Or.inr ⟨bareMnemonic_of_take blank long, [], by rw [alone]; rfl, by simp⟩
  | c :: d :: e :: rest => exact Or.inl rfl

/-- Where trimming leaves the mnemonic as it is, it leaves all as it is but for the
wording of messages. -/
theorem encodeLine_of_outline_eq [Machine] {r : Registry} {line other : List Char}
    (same : (encodeLine r line).mapError LineFault.outline =
      (encodeLine r other).mapError LineFault.outline) :
    (∃ w, encodeLine r line = .ok w ∧ encodeLine r other = .ok w) ∨
      (∃ count, encodeLine r line = .error (.tooManyDigits count) ∧
        encodeLine r other = .error (.tooManyDigits count)) ∨
      ∃ e f, encodeLine r line = .error (.reported e) ∧
        encodeLine r other = .error (.reported f) ∧ e.kind = f.kind := by
  cases atOther : encodeLine r other with
  | ok w =>
    rw [atOther] at same
    exact Or.inl ⟨w, mapError_eq_ok_iff.mp same, rfl⟩
  | error fault =>
    rw [atOther] at same
    obtain ⟨first, failed, outline⟩ := mapError_eq_error_iff.mp same
    cases fault with
    | tooManyDigits count =>
      cases first with
      | tooManyDigits digits =>
        obtain rfl : digits = count := Sum.inr.inj outline
        exact Or.inr (Or.inl ⟨digits, failed, rfl⟩)
      | reported e => cases outline
    | reported f =>
      cases first with
      | tooManyDigits digits => cases outline
      | reported e => exact Or.inr (Or.inr ⟨e, f, failed, rfl, Sum.inl.inj outline⟩)

theorem kind_eq_iff [Machine] {r : Registry} {line other : List Char} {e f : LineError}
    (failed : encodeLine r line = .error (.reported e))
    (otherFailed : encodeLine r other = .error (.reported f)) :
    e.kind = f.kind ↔ r.contains (mnemonicKey line) = r.contains (mnemonicKey other) := by
  rw [kind_of_reported failed, kind_of_reported otherFailed]
  cases r.contains (mnemonicKey line) <;> cases r.contains (mnemonicKey other) <;> simp

/-- Trimming blanks off the end of a line changes neither whether it is encoded nor
its word, and it interrupts the work as before. It is also reported as before,
unless the blanks are a part of the mnemonic, and the mnemonic is registered either
with them or without them. -/
theorem encodeLine_trimEnd [Machine] (r : Registry) (line : List Char) :
    ((∃ w, encodeLine r line = .ok w ∧ encodeLine r (trimEnd line) = .ok w) ∨
      (∃ count, encodeLine r line = .error (.tooManyDigits count) ∧
        encodeLine r (trimEnd line) = .error (.tooManyDigits count)) ∨
      ∃ e f, encodeLine r line = .error (.reported e) ∧
        encodeLine r (trimEnd line) = .error (.reported f) ∧
        (e.kind = f.kind ↔
          r.contains (mnemonicKey line) = r.contains (mnemonicKey (trimEnd line)))) ∧
    (mnemonicKey (trimEnd line) = mnemonicKey line ∨ BareMnemonic line) := by
  obtain ⟨blanks, split, blank⟩ := exists_eq_trimEnd_append line
  generalize trimEnd line = s at split
  subst split
  rcases mnemonicKey_append_blanks blank s with sameKey | ⟨bare, bareTrimmed⟩
  · refine ⟨?_, Or.inl sameKey.symm⟩
    rcases encodeLine_of_outline_eq (encodeLine_outline_append_blanks (r := r) blank sameKey) with
      encoded | interrupted | ⟨e, f, failed, trimmedFailed, _⟩
    · exact Or.inl encoded
    · exact Or.inr (Or.inl interrupted)
    · exact Or.inr (Or.inr ⟨e, f, failed, trimmedFailed, kind_eq_iff failed trimmedFailed⟩)
  · obtain ⟨e, failed⟩ := bare.exists_reported r
    obtain ⟨f, trimmedFailed⟩ := bareTrimmed.exists_reported r
    exact ⟨Or.inr (Or.inr ⟨e, f, failed, trimmedFailed, kind_eq_iff failed trimmedFailed⟩),
      Or.inr bare⟩

/-- It is not true that only the wording of an error may change: the mnemonic of a
jump on zero is registered with the blank after it, so that the bare mnemonic lacks
an operand before it is trimmed and is unknown afterwards. -/
theorem bareJump_kinds_differ :
    ¬ ∀ (entries : List Entry) (flags : List Json) (r : Registry) (line : List Char),
      Registry.ofEntries entries flags = .ok r →
      (∀ count, encodeLine r line ≠ .error (.tooManyDigits count)) →
      (∀ count, encodeLine r (trimEnd line) ≠ .error (.tooManyDigits count)) →
      (∃ w, encodeLine r line = .ok w ∧ encodeLine r (trimEnd line) = .ok w) ∨
        ∃ e f, encodeLine r line = .error (.reported e) ∧
          encodeLine r (trimEnd line) = .error (.reported f) ∧ e.kind = f.kind := by
  intro agree
  have failed : encodeLine .standard "JZ ".toList =
      .error (.reported (.operand "R" (.absentAtColumn 4) (some 4))) := rfl
  have trimmedFailed : encodeLine .standard (trimEnd "JZ ".toList) =
      .error (.reported (.unknownOpcode "JZ".toList)) := rfl
  have noOverflow (count : Nat) :
      encodeLine .standard "JZ ".toList ≠ .error (.tooManyDigits count) := by
    rw [failed]
    rintro ⟨⟩
  have noTrimmedOverflow (count : Nat) :
      encodeLine .standard (trimEnd "JZ ".toList) ≠ .error (.tooManyDigits count) := by
    rw [trimmedFailed]
    rintro ⟨⟩
  rcases agree _ _ _ "JZ ".toList Registry.ofEntries_standardEntries noOverflow
    noTrimmedOverflow with ⟨w, encoded, _⟩ | ⟨e, f, first, second, sameKind⟩
  · rw [failed] at encoded
    cases encoded
  · rw [failed] at first
    rw [trimmedFailed] at second
    cases first
    cases second
    cases sameKind

end WordAssembler
