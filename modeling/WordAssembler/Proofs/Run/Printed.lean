import WordAssembler.Proofs.Assembly.Span
import WordAssembler.Proofs.Listing.Row
import WordAssembler.Proofs.Run.Outcome

namespace WordAssembler

theorem canonical_of_encodeLine [Machine] {r : Registry} {line : List Char} {w : Word}
    (encoded : encodeLine r line = .ok w) : Bits.Canonical w := by
  obtain ⟨i, _, rfl⟩ := map_eq_ok_iff.mp encoded
  exact Bits.canonical_blank.write i.format.layout i.opcode i.operands

theorem lineFeed_not_mem_instructionText {source raw : List Char}
    (member : raw ∈ splitLines source) (someText : instructionText raw ≠ []) :
    '\n' ∉ instructionText raw := by
  intro inText
  obtain ⟨rest, split, _⟩ := exists_raw_eq someText
  have inLine : '\n' ∈ raw := by
    rw [split]
    exact List.mem_append_right _ (List.mem_append_left _ inText)
  have inside := not_isLineBreak_of_mem_splitLines member '\n' inLine
  contradiction

/-- The whole output for a source without faults, around the words. -/
def faultlessOutput (words : String) : String :=
  "=== Assembly Result ===\n" ++ "No issues found." ++ "\n\n" ++
    ("=== Words ===\n" ++ words ++ "\n")

namespace Assembly

variable [Machine] {r : Registry} {source : List Char} {a : Assembly}

theorem canonical_of_mem_lines (given : ofSource r source = .ok a) {e : EncodedLine}
    (member : e ∈ a.lines) : Bits.Canonical e.word := by
  obtain ⟨n, raw, w, _, _, encoded, rfl⟩ := (mem_lines_iff given).mp member
  exact canonical_of_encodeLine encoded

theorem lineFeed_not_mem_text (given : ofSource r source = .ok a) {e : EncodedLine}
    (member : e ∈ a.lines) : '\n' ∉ e.text := by
  obtain ⟨n, raw, w, atRaw, someText, _, rfl⟩ := (mem_lines_iff given).mp member
  exact lineFeed_not_mem_instructionText (List.mem_of_getElem? atRaw) someText

theorem out_ofSource (given : ofSource r source = .ok a) (clean : a.diagnostics = [])
    (label : Option String) (style : Style) :
    (Outcome.ofSource r label style source).out = faultlessOutput (style.render a.lines) := by
  simp only [Outcome.ofSource, given]
  exact print_of_clean clean

/-- A listing holds the assembled lines and nothing else. -/
theorem listing_readBack (given : ofSource r source = .ok a) (someLine : a.lines ≠ [])
    (octal : Bool) :
    (separated '\n' (listingText octal a.lines).toList).map (readListingRow octal) = a.lines ∧
      (separated '\n' (listingText octal a.lines).toList).map (rowWord octal) =
        a.words.map (shownDigits octal) := by
  have rows := separated_listingText someLine (fun e => lineFeed_not_mem_text given) octal
  refine ⟨?_, ?_⟩
  · rw [rows, List.map_map]
    refine (List.map_congr_left fun e member => ?_).trans (List.map_id _)
    exact readListingRow_listingRow octal e (canonical_of_mem_lines given member)
  · rw [rows, words, List.map_map, List.map_map]
    exact List.map_congr_left fun e _ => rowWord_listingRow octal e

end Assembly

theorem groups_octalText {words : List Word} (someWord : words ≠ []) :
    groups (octalText words).toList = words.map (shownDigits true) := by
  obtain ⟨text, given, written⟩ := octalDump_eq_tabulated (by decide : 0 < 8) words
  have same : octalText words = text := by
    rw [octalText]
    exact congrArg (Option.getD · "") given
  rw [same, written]
  exact writesWords_octal.groups_tabulated (by decide) someWord

theorem groups_binaryText {words : List Word} (someWord : words ≠ []) :
    groups (binaryText words).toList = words.map (shownDigits false) := by
  rw [toList_binaryText]
  exact writesWords_binary.groups_tabulated Nat.one_pos someWord

/-- Printed words are not lost. Words in octal digits fill line after line, and those in binary
digits have a line each; either way they are found again by their groups, and without words there
is no text. A listing that is printed for a source without faults has a row for each assembled
line, from which the line is read again, and shows the words as they are printed without it. -/
theorem printed_recovered [Machine] :
    (∀ words : List Word,
      (∀ perLine : Nat, 0 < perLine → ∃ text, octalDump words perLine = some text ∧
        (words = [] → text = "") ∧ (words ≠ [] → Tabulates text.toList 8 6 perLine words)) ∧
      (words = [] → binaryText words = "") ∧
      (words ≠ [] → Tabulates (binaryText words).toList 2 wordWidth 1 words)) ∧
    ∀ (r : Registry) (source : List Char) (a : Assembly), Assembly.ofSource r source = .ok a →
      a.diagnostics = [] → a.lines ≠ [] →
      ∀ (label : Option String) (form : String), form = "octal" ∨ form = "binary" →
        ∃ listing plain : String,
          (Outcome.ofSource r label ⟨form, true⟩ source).out = faultlessOutput listing ∧
          (Outcome.ofSource r label ⟨form, false⟩ source).out = faultlessOutput plain ∧
          (separated '\n' listing.toList).map (readListingRow (form = "octal")) = a.lines ∧
          (separated '\n' listing.toList).map (rowWord (form = "octal")) =
            groups plain.toList := by
  refine ⟨fun words => ⟨fun perLine positive => octalDump_readBack positive words,
      binaryText_readBack words⟩,
    fun r source a given clean someLine label form named => ?_⟩
  have someWord : a.words ≠ [] := by rwa [Assembly.words, ne_eq, List.map_eq_nil_iff]
  obtain ⟨lines, shown⟩ := Assembly.listing_readBack given someLine (form = "octal")
  refine ⟨_, _, Assembly.out_ofSource given clean label _,
    Assembly.out_ofSource given clean label _, ?_, ?_⟩
  · rw [Style.render_of_form named]
    exact lines
  · rw [Style.render_of_form named, Style.render_of_form named]
    rcases named with rfl | rfl
    · exact shown.trans (groups_octalText someWord).symm
    · exact shown.trans (groups_binaryText someWord).symm

/-- Two instructions with a comment and an empty line between them. -/
def commentedSource : List Char :=
  "LDR 1,2,10,1 ;first\n\n  IN 1,3".toList

theorem printed_recovered_commentedSource :
    ∃ a : Assembly, Assembly.ofSource .standard commentedSource = .ok a ∧ a.diagnostics = [] ∧
      a.lines.map (·.number) = [1, 3] ∧
      ∃ listing plain : String,
        (Outcome.ofSource .standard none ⟨"octal", true⟩ commentedSource).out =
          faultlessOutput listing ∧
        (Outcome.ofSource .standard none ⟨"octal", false⟩ commentedSource).out =
          faultlessOutput plain ∧
        (separated '\n' listing.toList).map (readListingRow true) = a.lines ∧
        (separated '\n' listing.toList).map (rowWord true) = groups plain.toList := by
  obtain ⟨a, given, clean, numbers⟩ : ∃ a, Assembly.ofSource .standard commentedSource = .ok a ∧
      a.diagnostics = [] ∧ a.lines.map (·.number) = [1, 3] := ⟨_, rfl, rfl, rfl⟩
  have someLine : a.lines ≠ [] := by
    intro none
    rw [none] at numbers
    cases numbers
  exact ⟨a, given, clean, numbers,
    printed_recovered.2 .standard commentedSource a given clean someLine none "octal" (Or.inl rfl)⟩

end WordAssembler
