import WordAssembler.Bits.Storage

namespace WordAssembler

/-- A row of bits addressed from its most significant end. Bit `i` of `store`
is the bit at index `i`. A row has no width of its own: it is read with a width
that the reader states. With a limit, indices from the limit on are refused. -/
structure Bits (limit : Option Nat) where
  store : Nat
  deriving DecidableEq, Repr

/-- A row that grows as bits are set. -/
abbrev BitRow := Bits none

def wordWidth : Nat := 18

abbrev Word := Bits (some wordWidth)

namespace Bits

variable {limit : Option Nat}

def blank : Bits limit := ⟨0⟩

/-- The bit at an index; every operation is described through it. -/
def bit (b : Bits limit) (i : Nat) : Bool :=
  b.store.testBit i

/-- A row with given storage. The limit is not applied, so that storage may
hold bits that no index reaches. -/
def ofStore (store : Int) : Except BitFault (Bits limit) :=
  if store < 0 then .error .negativeStore else .ok ⟨store.toNat⟩

/-- The row whose first bits are those of the list. -/
def ofList (bits : List Bool) : Bits limit :=
  ⟨bits.foldr (fun first rest => first.toNat + 2 * rest) 0⟩

def Admissible (limit : Option Nat) (i : Int) : Prop :=
  0 ≤ i ∧ ∀ n ∈ limit, i < n

instance (limit : Option Nat) (i : Int) : Decidable (Admissible limit i) :=
  inferInstanceAs (Decidable (_ ∧ _))

def requireIndex (limit : Option Nat) (i : Int) : Except BitFault Unit :=
  if Admissible limit i then .ok () else .error (BitFault.index i limit).reported

def get (b : Bits limit) (i : Int) : Except BitFault Bool := do
  requireIndex limit i
  return b.bit i.toNat

def put (b : Bits limit) (i : Nat) (value : Bool) : Bits limit :=
  if b.bit i = value then b else ⟨b.store ^^^ 1 <<< i⟩

/-- Replaces the bit at an index that may be refused. The weight of the index
has to be storable, also where nothing changes. -/
def set [Machine] (b : Bits limit) (i : Int) (value : Bool) : Except BitFault (Bits limit) := do
  requireIndex limit i
  requirePower i.toNat
  return b.put i.toNat value

def negate (b : Bits limit) (start count : Nat) : Bits limit :=
  ⟨b.store ^^^ ((1 <<< count - 1) <<< start)⟩

/-- Refuses a range of indices that ends before it starts, or that the limit
excludes. An empty range is still refused if it starts beyond the limit. -/
def requireRange (limit : Option Nat) (start stop : Int) : Except BitFault Unit :=
  if start < 0 ∨ stop < start then .error (BitFault.flipRange start stop).reported
  else requireIndex limit (max (stop - 1) start)

/-- Negates the bits with indices from `start` up to and without `stop`. As
many set bits as there are in the range have to be storable, at its place. -/
def flip [Machine] (b : Bits limit) (start stop : Int) : Except BitFault (Bits limit) := do
  requireRange limit start stop
  let count := (stop - start).toNat
  requirePower count
  unless count = 0 do requireShift count start.toNat
  return b.negate start.toNat count

/-- The index of the last set bit plus one, and zero if no bit is set. -/
def length (b : Bits limit) : Nat :=
  if b.store = 0 then 0 else b.store.log2 + 1

/-- The bits from `start` on, as many as asked for, up to the first index
that is refused. -/
def readFrom (b : Bits limit) (start : Int) : Nat → Except BitFault (List Bool)
  | 0 => .ok []
  | n + 1 => do
    let first ← b.get start
    let rest ← b.readFrom (start + 1) n
    return first :: rest

def take (b : Bits limit) (width : Int) : Except BitFault (List Bool) :=
  b.readFrom 0 width.toNat

def digits (bits : List Bool) : List Char :=
  bits.map fun bit => if bit then '1' else '0'

/-- The digits of the bits below a width; there are none below a negative one. -/
def digitsBelow (b : Bits limit) (width : Int) : Except BitFault (List Char) :=
  digits <$> b.take width

def requireWidth (width : Int) : Except BitFault Unit :=
  if width < 0 then .error (BitFault.negativeWidth width).reported else .ok ()

def digitsOfWidth (b : Bits limit) (width : Int) : Except BitFault (List Char) := do
  requireWidth width
  b.digitsBelow width

def addDigit (b : Bits limit) (digit : Char × Nat) : Except BitFault (Bits limit) :=
  if digit.1 = '1' then do
    requireIndex limit digit.2
    return b.put digit.2 true
  else if digit.1 = '0' then .ok b
  else .error (.notABit digit.1)

/-- Reads a row from binary digits, the first at index zero. Underscores
between them are passed over. -/
def ofText (text : List Char) : Except BitFault (Bits limit) :=
  (text.filter (· ≠ '_')).zipIdx.foldlM addDigit blank

/-- The row as a message shows it: a word with all its bits, another row up
to the last set bit, and with at least one. -/
def display (b : Bits limit) : String :=
  let shown := fun width : Nat => String.ofList (digits ((List.range width).map b.bit))
  match limit with
  | none => s!"BitVector('{shown (max b.length 1)}')"
  | some n => s!"Word('{shown n}')"

/-- A row after a series of changes, and the fault that ended the series
early, if there was one. Changes made before the fault are kept. -/
structure Edited (limit : Option Nat) where
  bits : Bits limit
  fault : Option BitFault
  deriving DecidableEq, Repr

/-- Goes on with further changes unless a fault has ended the series. -/
def Edited.andThen (e : Edited limit) (next : Bits limit → Edited limit) : Edited limit :=
  match e.fault with
  | none => next e.bits
  | some _ => e

def edited (b : Bits limit) : Except BitFault (Bits limit) → Edited limit
  | .ok after => ⟨after, none⟩
  | .error f => ⟨b, some f⟩

/-- Makes `count` changes in order, numbered from `i` on. A change names an
index and its new bit, or nothing to do, or fails. -/
def editFrom [Machine] (change : Nat → Except BitFault (Option (Int × Bool))) :
    (count i : Nat) → Bits limit → Edited limit
  | 0, _, b => ⟨b, none⟩
  | n + 1, i, b =>
    match change i with
    | .error f => ⟨b, some f⟩
    | .ok none => editFrom change n (i + 1) b
    | .ok (some (index, value)) =>
      (b.edited (b.set index value)).andThen (editFrom change n (i + 1))

theorem Edited.eq_of_fault {e : Edited limit} (ended : e.fault = none) : e = ⟨e.bits, none⟩ := by
  rw [← ended]

theorem eq_of_bit {b c : Bits limit} (h : ∀ i, b.bit i = c.bit i) : b = c := by
  cases b; cases c
  exact congrArg Bits.mk (Nat.eq_of_testBit_eq h)

@[simp] theorem bit_blank (i : Nat) : (blank : Bits limit).bit i = false :=
  Nat.zero_testBit i

@[simp] theorem bit_put (b : Bits limit) (i j : Nat) (value : Bool) :
    (b.put i value).bit j = if i = j then value else b.bit j := by
  unfold put bit
  cases value <;> split <;> by_cases h : i = j <;> simp_all [Nat.one_shiftLeft]

/-- Negating a range changes the bits in it and no other. -/
theorem bit_negate (b : Bits limit) (start count j : Nat) :
    (b.negate start count).bit j = (b.bit j ^^ decide (start ≤ j ∧ j < start + count)) := by
  unfold negate bit
  rw [Nat.testBit_xor, Nat.testBit_shiftLeft, Nat.one_shiftLeft, Nat.testBit_two_pow_sub_one]
  congr 1
  by_cases h : start ≤ j <;> simp [h]
  omega

/-- The bits of a list come first, and nothing is set after them. -/
theorem bit_ofList (bits : List Bool) (j : Nat) :
    (ofList bits : Bits limit).bit j = bits[j]?.getD false := by
  unfold ofList bit
  induction bits generalizing j with
  | nil => simp
  | cons first rest ih =>
    cases j with
    | zero => cases first <;> simp [Nat.testBit_zero, Nat.add_mod]
    | succ j =>
      have half : (first.toNat + 2 * rest.foldr (fun first rest => first.toNat + 2 * rest) 0) / 2 =
          rest.foldr (fun first rest => first.toNat + 2 * rest) 0 := by
        cases first
        · simp
        · simp
          omega
      simp only [List.foldr_cons, Nat.testBit_succ, half, ih, List.getElem?_cons_succ]

theorem admissible_of_lt {width i : Nat} (reached : ∀ n ∈ limit, width ≤ n) (inside : i < width) :
    Admissible limit i := by
  refine ⟨by omega, fun n atLimit => ?_⟩
  have below := reached n atLimit
  omega

theorem unlimited (width : Nat) : ∀ n ∈ (none : Option Nat), width ≤ n :=
  nofun

theorem limited (width : Nat) : ∀ n ∈ some width, width ≤ n :=
  fun _ atLimit => Nat.le_of_eq (Option.some.inj atLimit)

theorem requireIndex_eq_ok_iff {i : Int} :
    requireIndex limit i = .ok () ↔ Admissible limit i := by
  by_cases admissible : Admissible limit i
  · simp only [requireIndex, admissible, if_true]
  · simp only [requireIndex, admissible, if_false, reduceCtorEq]

theorem get_natCast {i : Nat} (admissible : Admissible limit i) (b : Bits limit) :
    b.get i = .ok (b.bit i) := by
  rw [get, requireIndex, if_pos admissible]
  rfl

/-- An index is written where the limit admits it and memory holds its weight. -/
theorem set_natCast [Machine] {i : Nat} (admissible : Admissible limit i)
    (stored : i ≤ lastExponent) (b : Bits limit) (value : Bool) : b.set i value = .ok (b.put i value) := by
  rw [set, requireIndex, if_pos admissible, Int.toNat_natCast, requirePower_eq_ok_iff.mpr stored]
  rfl

theorem wordWidth_le_lastExponent [Machine] : wordWidth ≤ lastExponent := by
  have held := thirty_le_lastExponent
  unfold wordWidth
  omega

end Bits

end WordAssembler
