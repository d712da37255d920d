import WordAssembler.Proofs.Bits.Canonical
import WordAssembler.Proofs.Bits.Value
import WordAssembler.Proofs.Text.Numeral

namespace WordAssembler

/-- The changes of a row that are made as one, and not bit by bit. A single bit is cleared
by setting it to false. -/
def Edit.Whole : Edit → Prop
  | .set _ _ | .clear | .flip _ _ => True
  | _ => False

/-- A change that is made as one is made or refused, and nothing in between. -/
theorem Edit.Whole.unchanged [Machine] {limit : Option Nat} {e : Edit} (whole : e.Whole)
    {b : Bits limit} (refused : (e.apply b).fault ≠ none) : (e.apply b).bits = b := by
  have kept : ∀ result : Except BitFault (Bits limit),
      (b.edited result).fault ≠ none → (b.edited result).bits = b := by
    intro result fault
    cases result with
    | ok after => exact absurd rfl fault
    | error f => rfl
  cases e with
  | set index value => exact kept _ refused
  | flip start stop => exact kept _ refused
  | clear => exact absurd rfl refused
  | imprint => exact whole.elim
  | resize => exact whole.elim
  | resizeSelf => exact whole.elim
  | write => exact whole.elim

namespace Word

/-- The words that a program comes by: the blank one, those of integers, and what changes
and copies make of them. A change counts also where it is refused or broken off, with what
it has done by then. A copy takes over the storage as it is. -/
inductive Obtained [Machine] : Word → Prop
  | blank : Obtained Bits.blank
  | ofInt (value : Int) : Obtained (ofInt value)
  | edited {w : Word} (e : Edit) : Obtained w → Obtained (e.apply w).bits
  | copied {w c : Word} : Obtained w → Bits.ofStore w.store = .ok c → Obtained c

theorem canonical_iff {w : Word} :
    Bits.Canonical w ↔ ∀ i : Nat, wordWidth ≤ i → w.bit i = false := by
  constructor
  · intro canonical i outside
    rw [← Bool.not_eq_true]
    intro isSet
    have below := (canonical i isSet).2 wordWidth rfl
    omega
  · intro clear i isSet
    have inside : i < wordWidth := by
      by_contra outside
      rw [clear i (by omega)] at isSet
      contradiction
    refine ⟨by omega, fun n atLimit => ?_⟩
    obtain rfl := Option.some.inj atLimit
    omega

theorem canonical_ofInt (value : Int) : Bits.Canonical (ofInt value) := by
  rw [canonical_iff]
  intro i outside
  have beyond : (naturalBits (wordOf value) wordWidth)[i]? = none := by
    rw [List.getElem?_eq_none_iff, naturalBits, List.length_map, List.length_range]
    exact outside
  rw [ofInt, Bits.bit_ofList, beyond]
  rfl

theorem Obtained.canonical [Machine] {w : Word} (obtained : w.Obtained) : Bits.Canonical w := by
  induction obtained with
  | blank => exact Bits.canonical_blank
  | ofInt value => exact canonical_ofInt value
  | edited e _ ih => exact ih.apply e
  | @copied w c _ copy ih =>
    have natural : ¬ (w.store : Int) < 0 := by omega
    rw [Bits.ofStore, if_neg natural] at copy
    obtain rfl := Except.ok.inj copy
    exact ih

theorem testBit_toNat (w : Word) (i : Nat) :
    w.toNat.testBit i = (decide (i < wordWidth) && w.bit (wordWidth - 1 - i)) := by
  rw [toNat, Bits.testBit_slice, Nat.zero_add]

theorem bit_eq_testBit (w : Word) {i : Nat} (inside : i < wordWidth) :
    w.bit i = w.toNat.testBit (wordWidth - 1 - i) := by
  have place : wordWidth - 1 - i < wordWidth := by omega
  have back : wordWidth - 1 - (wordWidth - 1 - i) = i := by omega
  rw [testBit_toNat, decide_eq_true place, Bool.true_and, back]

theorem toNat_lt (w : Word) : w.toNat < 2 ^ wordWidth :=
  w.slice_lt 0 wordWidth

theorem toNat_inj {v w : Word} (left : Bits.Canonical v) (right : Bits.Canonical w) :
    v.toNat = w.toNat ↔ v = w := by
  constructor
  · intro same
    refine Bits.eq_of_bit fun i => ?_
    by_cases inside : i < wordWidth
    · rw [bit_eq_testBit v inside, bit_eq_testBit w inside, same]
    · rw [canonical_iff.mp left i (by omega), canonical_iff.mp right i (by omega)]
  · exact congrArg toNat

theorem digits_inj {first second : List Bool} :
    Bits.digits first = Bits.digits second ↔ first = second := by
  have digit_inj : Function.Injective fun bit : Bool => if bit then '1' else '0' := by
    intro a b
    revert a b
    decide
  exact (List.map_injective_iff.mpr digit_inj).eq_iff

theorem binary_inj {v w : Word} : v.binary = w.binary ↔ v.toNat = w.toNat := by
  have weighed : ∀ u : Word, u.toNat = bitsValue ((List.range wordWidth).map u.bit) := by
    intro u
    simp only [toNat, Bits.slice, Nat.zero_add]
  constructor
  · intro same
    rw [weighed v, weighed w, digits_inj.mp same]
  · intro same
    refine digits_inj.mpr (List.map_congr_left fun i member => ?_)
    have inside := List.mem_range.mp member
    rw [bit_eq_testBit v inside, bit_eq_testBit w inside, same]

theorem octal_inj {v w : Word} : v.octal = w.octal ↔ v.toNat = w.toNat :=
  paddedDigits_inj (by decide) (by decide)

theorem length_octal (w : Word) : w.octal.length = 6 :=
  length_paddedDigits (by decide) (by decide) w.toNat_lt

theorem mem_octal {w : Word} {c : Char} (member : c ∈ w.octal) :
    c ∈ ['0', '1', '2', '3', '4', '5', '6', '7'] := by
  have written : ∀ digit < 8, digit.digitChar ∈ ['0', '1', '2', '3', '4', '5', '6', '7'] := by
    decide
  obtain ⟨digit, below, rfl⟩ := mem_paddedDigits (by decide) member
  exact written digit below

/-- However two words came about, nothing is set in them beyond their width. So they are the
same where they are the same number, and where they read the same in binary or in octal,
which always takes six digits. -/
theorem obtained_canonical [Machine] {v w : Word} (left : v.Obtained) (right : w.Obtained) :
    (∀ i : Nat, wordWidth ≤ i → w.bit i = false) ∧
      (v = w ↔ v.toNat = w.toNat) ∧ (v = w ↔ v.binary = w.binary) ∧
      (v = w ↔ v.octal = w.octal) ∧
      w.octal.length = 6 ∧ (∀ c ∈ w.octal, c ∈ ['0', '1', '2', '3', '4', '5', '6', '7']) ∧
      ∀ e : Edit, e.Whole → (e.apply w).fault ≠ none → (e.apply w).bits = w := by
  have number := (toNat_inj left.canonical right.canonical).symm
  refine ⟨canonical_iff.mp right.canonical, number, number.trans binary_inj.symm,
    number.trans octal_inj.symm, w.length_octal, fun c member => mem_octal member, ?_⟩
  intro e whole refused
  exact whole.unchanged refused

theorem obtained_canonical_brokenOff :
    let v : Word := ((Edit.imprint (-1) 20 17).apply Bits.blank).bits
    let w : Word := ((Edit.flip 0 18).apply Bits.blank).bits
    ((Edit.imprint (-1) 20 17).apply (Bits.blank : Word)).fault ≠ none ∧
      v.octal = w.octal ∧ v = w ∧ ((Edit.flip 0 19).apply w).bits = w := by
  intro v w
  have left : v.Obtained := .edited _ .blank
  have right : w.Obtained := .edited _ .blank
  obtain ⟨_, _, _, sameOctal, _, _, unchanged⟩ := obtained_canonical left right
  have printed : v.octal = w.octal := by decide +kernel
  exact ⟨by decide +kernel, printed, sameOctal.mpr printed,
    unchanged (.flip 0 19) trivial (by decide +kernel)⟩

end Word

end WordAssembler
