import WordAssembler.Proofs.Bits.Conversion

namespace WordAssembler.Bits

section

variable {limit limit' : Option Nat}

theorem exists_of_andThen {b : Bits limit} {result : Except BitFault (Bits limit)}
    {next : Bits limit → Edited limit} (ended : ((b.edited result).andThen next).fault = none) :
    ∃ c, result = .ok c ∧ (next c).fault = none := by
  cases result with
  | ok c => exact ⟨c, rfl, ended⟩
  | error f => contradiction

theorem slice_mod_mod (source : Bits limit) {sw dw m : Nat}
    (wide : min sw dw ≤ m) :
    source.slice 0 sw % 2 ^ m % 2 ^ dw = source.slice 0 sw % 2 ^ dw := by
  by_cases narrow : dw ≤ m
  · exact Nat.mod_mod_of_dvd _ (Nat.pow_dvd_pow 2 narrow)
  · have powers : 2 ^ sw ≤ 2 ^ m := Nat.pow_le_pow_right (by decide) (by omega)
    rw [Nat.mod_eq_of_lt (Nat.lt_of_lt_of_le (source.slice_lt 0 sw) powers)]

variable [Machine]

/-- A series that writes one place after another, from `offset + i` on, leaves its bits there
and changes nothing else. -/
theorem editFrom_writes {change : Nat → Except BitFault (Option (Int × Bool))} {offset : Nat}
    {value : Nat → Bool} {n i : Nat} (b : Bits limit)
    (steps : ∀ j, i ≤ j → j < i + n → change j = .ok (some ((offset + j : Nat), value j)))
    (writable : ∀ j, i ≤ j → j < i + n →
      Admissible limit (offset + j : Nat) ∧ offset + j ≤ lastExponent) :
    (editFrom change n i b).fault = none ∧ ∀ k, (editFrom change n i b).bits.bit k =
      if offset + i ≤ k ∧ k < offset + i + n then value (k - offset) else b.bit k := by
  induction n generalizing i b with
  | zero =>
    refine ⟨rfl, fun k => ?_⟩
    have outside : ¬ (offset + i ≤ k ∧ k < offset + i + 0) := by omega
    rw [if_neg outside]
    rfl
  | succ n ih =>
    obtain ⟨admissible, stored⟩ := writable i le_rfl (by omega)
    have first : editFrom change (n + 1) i b =
        editFrom change n (i + 1) (b.put (offset + i) (value i)) := by
      rw [editFrom, steps i le_rfl (by omega)]
      simp only [set_natCast admissible stored b (value i), edited, Edited.andThen]
    obtain ⟨ended, bits⟩ := ih (i := i + 1) (b.put (offset + i) (value i))
      (fun j after inside => steps j (by omega) (by omega))
      (fun j after inside => writable j (by omega) (by omega))
    refine ⟨first ▸ ended, fun k => ?_⟩
    rw [first, bits, bit_put]
    by_cases here : offset + i = k
    · have place : k - offset = i := by omega
      have later : ¬ (offset + (i + 1) ≤ k ∧ k < offset + (i + 1) + n) := by omega
      have inside : offset + i ≤ k ∧ k < offset + i + (n + 1) := by omega
      rw [if_neg later, if_pos here, if_pos inside, place]
    · have same : (offset + (i + 1) ≤ k ∧ k < offset + (i + 1) + n) ↔
          (offset + i ≤ k ∧ k < offset + i + (n + 1)) := by omega
      simp only [same, here, if_false]

theorem stored_of_set {b after : Bits limit} {index : Int} {value : Bool}
    (given : b.set index value = .ok after) : index.toNat ≤ lastExponent := by
  obtain ⟨_, _, rest⟩ := bind_eq_ok_iff.mp given
  obtain ⟨_, stored, _⟩ := bind_eq_ok_iff.mp rest
  exact requirePower_eq_ok_iff.mp stored

theorem stored_of_editFrom {change : Nat → Except BitFault (Option (Int × Bool))} {n i : Nat}
    {b : Bits limit} (ended : (editFrom change n i b).fault = none) {j : Nat} (after : i ≤ j)
    (inside : j < i + n) {index : Int} {value : Bool}
    (step : change j = .ok (some (index, value))) : index.toNat ≤ lastExponent := by
  induction n generalizing i b with
  | zero => omega
  | succ n ih =>
    rw [editFrom] at ended
    rcases Nat.eq_or_lt_of_le after with rfl | later
    · simp only [step] at ended
      obtain ⟨c, given, _⟩ := exists_of_andThen ended
      exact stored_of_set given
    · split at ended
      · contradiction
      · exact ih ended later (by omega)
      · obtain ⟨c, _, rest⟩ := exists_of_andThen ended
        exact ih rest later (by omega)

variable (source : Bits limit') (destination : Bits limit) {sw dw : Nat}

/-- Both ways of resizing copy as many bits as the narrower width has, from the end of the one
row to the end of the other. They differ in what the destination holds before. -/
theorem resize_eq_editFrom (dw : Nat) (sourceReached : ∀ n ∈ limit', sw ≤ n) :
    ∃ change offset skip, source.resize sw destination dw =
        editFrom change (min sw dw) 0 (if sw ≤ dw then blank else destination) ∧
      offset + min sw dw = dw ∧ skip + min sw dw = sw ∧
      ∀ j < min sw dw, change j = .ok (some ((offset + j : Nat), source.bit (skip + j))) := by
  have read : ∀ i < sw, source.get i = .ok (source.bit i) :=
    fun i inside => get_natCast (admissible_of_lt sourceReached inside) source
  by_cases widening : sw ≤ dw
  · have order : (sw : Int) ≤ dw := by omega
    refine ⟨fun j => do return some ((dw : Int) - sw + j, ← source.get j), dw - sw, 0, ?_,
      by omega, by omega, ?_⟩
    · rw [resize, requireWidth_natCast, requireWidth_natCast, Nat.min_eq_left widening]
      simp only [order, widening, if_true, Int.toNat_natCast]
    · intro j inside
      have place : (dw : Int) - sw + j = (dw - sw + j : Nat) := by omega
      rw [Nat.zero_add, ← place]
      simp only [read j (by omega)]
      rfl
  · have order : ¬ (sw : Int) ≤ dw := by omega
    refine ⟨fun j => do return some ((j : Int), ← source.get ((sw : Int) - dw + j)), 0, sw - dw, ?_,
      by omega, by omega, ?_⟩
    · rw [resize, requireWidth_natCast, requireWidth_natCast,
        Nat.min_eq_right (Nat.le_of_not_le widening)]
      simp only [order, widening, if_false, Int.toNat_natCast]
    · intro j inside
      have place : (sw : Int) - dw + j = (sw - dw + j : Nat) := by omega
      rw [Nat.zero_add]
      simp only [place, read (sw - dw + j) (by omega)]
      rfl

/-- The low bits of the source end up at the end of the destination's width. What is before
them is clear. Beyond the width everything is clear when widening, and stays when narrowing. -/
theorem resize_copies (sourceReached : ∀ n ∈ limit', sw ≤ n) (reached : ∀ n ∈ limit, dw ≤ n)
    (room : min sw dw = 0 ∨ dw ≤ lastExponent + 1) :
    (source.resize sw destination dw).fault = none ∧
      ∀ k, (source.resize sw destination dw).bits.bit k =
        if k < dw then decide (dw ≤ sw + k) && source.bit (sw + k - dw)
        else decide (dw < sw) && destination.bit k := by
  obtain ⟨change, offset, skip, equal, offsetEnd, skipEnd, steps⟩ :=
    resize_eq_editFrom source destination dw sourceReached
  have writable : ∀ j, 0 ≤ j → j < 0 + min sw dw →
      Admissible limit (offset + j : Nat) ∧ offset + j ≤ lastExponent :=
    fun j _ inside => ⟨admissible_of_lt reached (by omega), by omega⟩
  obtain ⟨ended, bits⟩ := editFrom_writes (if sw ≤ dw then blank else destination)
    (fun j _ inside => steps j (by omega)) writable
  rw [equal]
  refine ⟨ended, fun k => ?_⟩
  rw [bits]
  -- what is not copied lies before the source's bits when widening, and beyond the width else
  by_cases copied : offset + 0 ≤ k ∧ k < offset + 0 + min sw dw
  · have inside : k < dw := by omega
    have after : dw ≤ sw + k := by omega
    have place : skip + (k - offset) = sw + k - dw := by omega
    rw [if_pos copied, if_pos inside, decide_eq_true after, Bool.true_and, place]
  · rw [if_neg copied]
    by_cases widening : sw ≤ dw
    · have before : k < dw → ¬ dw ≤ sw + k := by omega
      have order : ¬ dw < sw := by omega
      rw [if_pos widening, bit_blank, decide_eq_false order, Bool.false_and]
      split
      · rename_i inside
        rw [decide_eq_false (before inside), Bool.false_and]
      · rfl
    · have beyond : ¬ k < dw := by omega
      have order : dw < sw := by omega
      rw [if_neg widening, if_neg beyond, decide_eq_true order, Bool.true_and]

/-- Resizing ends early only where a place in the destination is beyond what memory holds. -/
theorem resize_fault_iff (sourceReached : ∀ n ∈ limit', sw ≤ n) (reached : ∀ n ∈ limit, dw ≤ n) :
    (source.resize sw destination dw).fault = none ↔ min sw dw = 0 ∨ dw ≤ lastExponent + 1 := by
  refine ⟨fun ended => ?_, fun room =>
    (resize_copies source destination sourceReached reached room).1⟩
  obtain ⟨change, offset, skip, equal, offsetEnd, skipEnd, steps⟩ :=
    resize_eq_editFrom source destination dw sourceReached
  rw [equal] at ended
  by_cases nothing : min sw dw = 0
  · exact Or.inl nothing
  · have last := stored_of_editFrom ended (Nat.zero_le (min sw dw - 1)) (by omega)
      (steps (min sw dw - 1) (by omega))
    omega

theorem bit_resize (sourceReached : ∀ n ∈ limit', sw ≤ n) (reached : ∀ n ∈ limit, dw ≤ n)
    (ended : (source.resize sw destination dw).fault = none) (k : Nat) :
    (source.resize sw destination dw).bits.bit k =
      if k < dw then decide (dw ≤ sw + k) && source.bit (sw + k - dw)
      else decide (dw < sw) && destination.bit k :=
  have room := (resize_fault_iff source destination sourceReached reached).mp ended
  (resize_copies source destination sourceReached reached room).2 k

theorem slice_resize (sourceReached : ∀ n ∈ limit', sw ≤ n) (reached : ∀ n ∈ limit, dw ≤ n)
    (ended : (source.resize sw destination dw).fault = none) :
    (source.resize sw destination dw).bits.slice 0 dw = source.slice 0 sw % 2 ^ dw := by
  refine Nat.eq_of_testBit_eq fun i => ?_
  rw [Nat.testBit_mod_two_pow, testBit_slice, testBit_slice,
    bit_resize source destination sourceReached reached ended]
  by_cases inside : i < dw
  · have place : 0 + (dw - 1 - i) < dw := by omega
    rw [if_pos place]
    by_cases low : i < sw
    · have after : dw ≤ sw + (0 + (dw - 1 - i)) := by omega
      have back : sw + (0 + (dw - 1 - i)) - dw = 0 + (sw - 1 - i) := by omega
      rw [back, decide_eq_true low, decide_eq_true after]
    · have before : ¬ dw ≤ sw + (0 + (dw - 1 - i)) := by omega
      rw [decide_eq_false low, decide_eq_false before, Bool.false_and, Bool.false_and]
  · rw [decide_eq_false inside, Bool.false_and, Bool.false_and]

/-- What was resized is always read, as there is no bit set that was too far up to be copied. -/
theorem unsignedValue_resize (sourceReached : ∀ n ∈ limit', sw ≤ n) (reached : ∀ n ∈ limit, dw ≤ n)
    (ended : (source.resize sw destination dw).fault = none) :
    (source.resize sw destination dw).bits.unsignedValue dw =
      .ok (source.slice 0 sw % 2 ^ dw) := by
  have weighable : (source.resize sw destination dw).bits.Weighable dw := by
    intro i inside isSet
    rw [bit_resize source destination sourceReached reached ended, if_pos inside,
      Bool.and_eq_true, decide_eq_true_iff] at isSet
    have room := (resize_fault_iff source destination sourceReached reached).mp ended
    omega
  exact (unsignedValue_eq_ok_iff reached).mpr
    ⟨weighable, slice_resize source destination sourceReached reached ended⟩

theorem toNat_ofBits (b : BitRow) (width : Nat) :
    ∃ w, Word.ofBits b width = .ok w ∧ w.toNat = b.slice 0 width % 2 ^ wordWidth := by
  have sourceReached := unlimited width
  have reached := limited wordWidth
  have room : wordWidth ≤ lastExponent + 1 := wordWidth_le_lastExponent.trans (Nat.le_succ _)
  have ended := (resize_fault_iff b (blank : Word) sourceReached reached).mpr (Or.inr room)
  refine ⟨(b.resize width (blank : Word) wordWidth).bits, ?_,
    slice_resize b blank sourceReached reached ended⟩
  rw [Word.ofBits]
  split
  · rename_i made
    rw [made]
  · rename_i refused
    rw [refused] at ended
    contradiction

/-- Resizing keeps the number at the low end of the new width, reduced to it. Beyond the width
the destination is cleared when widening and stays as it was when narrowing. A width on the way
that is not below both others makes no difference, and a word takes the low end of any row. A
row that grows has every width, and a resize is only refused where memory does not hold the
last bit. -/
theorem resize_lowEnd (source : Bits limit') (destination : Bits limit) {sw dw : Nat}
    (sourceReached : ∀ n ∈ limit', sw ≤ n) (reached : ∀ n ∈ limit, dw ≤ n) :
    ((source.resize sw destination dw).fault = none ↔ min sw dw = 0 ∨ dw ≤ lastExponent + 1) ∧
    (sw ≤ lastExponent + 1 → ∃ n, source.unsignedValue sw = .ok n) ∧
    (∀ resized, source.resize sw destination dw = ⟨resized, none⟩ →
      (∀ n, source.unsignedValue sw = .ok n → resized.unsignedValue dw = .ok (n % 2 ^ dw)) ∧
      ∀ j, dw ≤ j → resized.bit j = if sw ≤ dw then false else destination.bit j) ∧
    (∀ (m : Nat) (other : Bits limit) (middle : BitRow) (last : Bits limit), min sw dw ≤ m →
      source.resize sw (blank : BitRow) m = ⟨middle, none⟩ →
      middle.resize m other dw = ⟨last, none⟩ →
        ∃ resized n, source.resize sw destination dw = ⟨resized, none⟩ ∧
          last.unsignedValue dw = .ok n ∧ resized.unsignedValue dw = .ok n) ∧
    ∀ (b : BitRow) (width : Nat), ∃ w, Word.ofBits b width = .ok w ∧
      ∀ n, b.unsignedValue width = .ok n → w.toNat = n % 2 ^ wordWidth := by
  have completes := resize_fault_iff source destination sourceReached reached
  refine ⟨completes, fun held => ?_, fun resized complete => ⟨fun n read => ?_, fun j beyond => ?_⟩,
    fun m other middle last wide first second => ?_, fun b width => ?_⟩
  · exact ⟨_, unsignedValue_of_held sourceReached held source⟩
  · have number := ((unsignedValue_eq_ok_iff sourceReached).mp read).2
    have reading := unsignedValue_resize source destination sourceReached reached
    rw [complete, number] at reading
    exact reading rfl
  · have bits := bit_resize source destination sourceReached reached
    rw [complete] at bits
    have outside : ¬ j < dw := by omega
    rw [bits rfl, if_neg outside]
    by_cases widening : sw ≤ dw
    · rw [if_pos widening, decide_eq_false (by omega), Bool.false_and]
    · rw [if_neg widening, decide_eq_true (by omega), Bool.true_and]
  · have slice := slice_resize source (blank : BitRow) sourceReached (unlimited m)
    have reading := unsignedValue_resize middle other (unlimited m) reached
    have room := resize_fault_iff middle other (unlimited m) reached
    rw [first] at slice
    rw [second, slice rfl, slice_mod_mod source wide] at reading
    rw [second, eq_self, true_iff] at room
    have direct := completes.mpr (by omega)
    exact ⟨_, _, Edited.eq_of_fault direct, reading rfl,
      unsignedValue_resize source destination sourceReached reached direct⟩
  · obtain ⟨w, made, number⟩ := toNat_ofBits b width
    refine ⟨w, made, fun n read => ?_⟩
    rw [number, ((unsignedValue_eq_ok_iff (unlimited width)).mp read).2]

end

theorem resize_lowEnd_staleRow :
    (∀ n ∈ some wordWidth, 6 ≤ n) ∧ (∀ n ∈ (none : Option Nat), 4 ≤ n) ∧
      (⟨11⟩ : Word).unsignedValue 6 = .ok 52 ∧
      ∃ resized, (⟨11⟩ : Word).resize 6 (⟨384⟩ : BitRow) 4 = ⟨resized, none⟩ ∧
        resized.unsignedValue 4 = .ok (52 % 2 ^ 4) ∧ resized.bit 7 = true := by
  have sourceReached : ∀ n ∈ some wordWidth, 6 ≤ n := by simp [wordWidth]
  obtain ⟨completes, _, kept, _, _⟩ :=
    resize_lowEnd (⟨11⟩ : Word) (⟨384⟩ : BitRow) sourceReached (unlimited 4)
  have direct := completes.mpr (Or.inr (by decide))
  have complete := Edited.eq_of_fault direct
  have read : (⟨11⟩ : Word).unsignedValue 6 = .ok 52 := by decide +kernel
  obtain ⟨number, beyond⟩ := kept _ complete
  exact ⟨sourceReached, unlimited 4, read, _, complete, number 52 read, beyond 7 (by decide)⟩

theorem resize_refused :
    ((blank : BitRow).resize 1 (blank : BitRow) (10 ^ 30)).fault = some .uncountable ∧
      ((⟨1⟩ : BitRow).resize 1 (blank : BitRow) (10 ^ 30)).bits = blank ∧
      ((blank : Word).resize 19 (blank : BitRow) 19).fault = some (.index 18 (some wordWidth)) := by
  refine ⟨?_, ?_, ?_⟩ <;> decide +kernel

end WordAssembler.Bits
