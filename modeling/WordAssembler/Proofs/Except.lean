import Mathlib.Data.List.Basic

namespace WordAssembler

variable {ε α β : Type}

theorem bind_eq_ok_iff {x : Except ε α} {f : α → Except ε β} {b : β} :
    (x >>= f) = .ok b ↔ ∃ a, x = .ok a ∧ f a = .ok b := by
  cases x with
  | error e => simp [bind, Except.bind]
  | ok a => simp [bind, Except.bind]

theorem bind_eq_error_iff {x : Except ε α} {f : α → Except ε β} {e : ε} :
    (x >>= f) = .error e ↔ x = .error e ∨ ∃ a, x = .ok a ∧ f a = .error e := by
  cases x with
  | error e' => simp [bind, Except.bind]
  | ok a => simp [bind, Except.bind]

theorem require_eq_ok_iff {x : Except ε Unit} {y : Except ε β} {b : β} :
    (x >>= fun _ => y) = .ok b ↔ x = .ok () ∧ y = .ok b := by
  cases x with
  | error e => simp [bind, Except.bind]
  | ok a => simp [bind, Except.bind]

theorem map_eq_ok_iff {x : Except ε α} {f : α → β} {b : β} :
    (f <$> x) = .ok b ↔ ∃ a, x = .ok a ∧ f a = b := by
  cases x with
  | error e => simp [Functor.map, Except.map]
  | ok a => simp [Functor.map, Except.map]

theorem map_eq_error_iff {x : Except ε α} {f : α → β} {e : ε} :
    (f <$> x) = .error e ↔ x = .error e := by
  cases x with
  | error e' => simp [Functor.map, Except.map]
  | ok a => simp [Functor.map, Except.map]

theorem ok_decide_eq_ok_iff {p : Prop} [Decidable p] {answer : Bool} :
    (.ok (decide p) : Except ε Bool) = .ok answer ↔ (answer = true ↔ p) := by
  rw [Except.ok.injEq, eq_comm, Bool.eq_iff_iff, decide_eq_true_iff]

theorem mapError_eq_ok_iff {δ : Type} {x : Except ε α} {f : ε → δ} {a : α} :
    x.mapError f = .ok a ↔ x = .ok a := by
  cases x <;> simp [Except.mapError]

theorem mapError_eq_error_iff {δ : Type} {x : Except ε α} {f : ε → δ} {d : δ} :
    x.mapError f = .error d ↔ ∃ e, x = .error e ∧ f e = d := by
  cases x <;> simp [Except.mapError]

theorem mapError_map {δ : Type} (f : ε → δ) (g : α → β) (x : Except ε α) :
    (g <$> x).mapError f = g <$> x.mapError f := by
  cases x <;> rfl

theorem mapError_bind {δ : Type} (f : ε → δ) (x : Except ε α) (g : α → Except ε β) :
    (x >>= g).mapError f = x.mapError f >>= fun a => (g a).mapError f := by
  cases x <;> rfl

theorem mapError_foldlM {δ : Type} (f : ε → δ) (g : β → α → Except ε β) (items : List α)
    (start : β) :
    (items.foldlM g start).mapError f = items.foldlM (fun b a => (g b a).mapError f) start := by
  induction items generalizing start with
  | nil => rfl
  | cons first rest ih =>
    rw [List.foldlM_cons, List.foldlM_cons, mapError_bind]
    exact congrArg _ (funext ih)

/-- A run over a list that may stop is stopped by the first item that does so,
after all items before it have gone through. -/
theorem mapM_eq_error_iff {f : α → Except ε β} {e : ε} {items : List α} :
    items.mapM f = .error e ↔
      ∃ before item after, items = before ++ item :: after ∧
        (∀ i ∈ before, ∃ b, f i = .ok b) ∧ f item = .error e := by
  induction items with
  | nil => simp [pure, Except.pure]
  | cons first rest ih =>
    rw [List.mapM_cons, bind_eq_error_iff]
    constructor
    · rintro (stops | ⟨b, goes, later⟩)
      · exact ⟨[], first, rest, rfl, by simp, stops⟩
      · rcases bind_eq_error_iff.mp later with stops | ⟨_, _, impossible⟩
        · obtain ⟨before, item, after, equal, through, stop⟩ := ih.mp stops
          refine ⟨first :: before, item, after, by rw [equal, List.cons_append], ?_, stop⟩
          intro i member
          rcases List.mem_cons.mp member with same | inBefore
          · exact ⟨b, same ▸ goes⟩
          · exact through i inBefore
        · simp [pure, Except.pure] at impossible
    · rintro ⟨before, item, after, equal, through, stop⟩
      cases before with
      | nil =>
        obtain ⟨rfl, rfl⟩ := List.cons.inj equal
        exact Or.inl stop
      | cons head tail =>
        obtain ⟨rfl, rfl⟩ := List.cons.inj equal
        obtain ⟨b, goes⟩ := through first (List.mem_cons_self ..)
        have inner := ih.mpr
          ⟨tail, item, after, rfl, fun i member => through i (List.mem_cons_of_mem _ member), stop⟩
        exact Or.inr ⟨b, goes, bind_eq_error_iff.mpr (Or.inl inner)⟩

end WordAssembler
