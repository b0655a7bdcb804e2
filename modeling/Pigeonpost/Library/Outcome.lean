import Mathlib.Data.List.Forall2

/-! # Fallible computations

How a successful sequence of fallible steps is taken apart. -/

namespace Pigeonpost

open List

universe u v

variable {ε : Type u} {α β : Type v} {f : α → Except ε β} {x : Except ε α} {b : β}

theorem bind_eq_ok : (x >>= f) = .ok b ↔ ∃ a, x = .ok a ∧ f a = .ok b := by
  cases x with
  | error | ok => simp [Bind.bind, Except.bind]

@[simp] theorem ok_bind (a : α) (f : α → Except ε β) : (Except.ok a >>= f) = f a := rfl

@[simp] theorem error_bind (e : ε) (f : α → Except ε β) :
    ((Except.error e : Except ε α) >>= f) = .error e := rfl

theorem pure_eq_ok {a b : α} : (pure a : Except ε α) = .ok b ↔ a = b := by
  simp [pure, Except.pure]

variable {e : ε} {ε' : Type u}

theorem throw_ne_ok {b : α} : (throw e : Except ε α) ≠ .ok b := by
  intro h
  cases h

theorem mapError_eq_ok {f : ε → ε'} {b : α} : x.mapError f = .ok b ↔ x = .ok b := by
  cases x with
  | error | ok => simp [Except.mapError]

theorem map_eq_ok {f : α → β} : x.map f = .ok b ↔ ∃ a, x = .ok a ∧ f a = b := by
  cases x with
  | error | ok => simp [Except.map]

def okOr (value : Option α) (error : ε) : Except ε α :=
  match value with
  | some a => .ok a
  | none => .error error

@[simp] theorem okOr_some (a : α) (error : ε) : okOr (some a) error = .ok a := rfl

theorem okOr_eq_ok {value : Option α} {error : ε} {a : α} :
    okOr value error = .ok a ↔ value = some a := by
  cases value with
  | none | some => simp [okOr]

variable {c : Prop} {k : Except ε α}

/-- A check that fails with an error, and what runs after it. -/
theorem guard_eq_ok [Decidable c] {b : α} :
    (if c then throw e else k) = .ok b ↔ ¬c ∧ k = .ok b := by
  by_cases h : c
  · rw [if_pos h]
    exact ⟨fun ht => absurd ht throw_ne_ok, fun ha => absurd h ha.1⟩
  · rw [if_neg h]
    exact ⟨fun hk => ⟨h, hk⟩, fun ha => ha.2⟩

/-- The same check as a step of its own. -/
theorem guard_bind_eq_ok [Decidable c] {k : Except ε β} :
    (if c then (throw e : Except ε α) >>= f else k) = .ok b ↔ ¬c ∧ k = .ok b :=
  guard_eq_ok

/-- The rules for the steps of a successful computation together. -/
theorem ok_iff : (∀ {ε : Type u} {α β : Type v} {x : Except ε α} {f : α → Except ε β} {b : β},
      (x >>= f) = .ok b ↔ ∃ a, x = .ok a ∧ f a = .ok b) ∧
    (∀ {ε : Type u} {α : Type v} {a b : α}, (pure a : Except ε α) = .ok b ↔ a = b) ∧
    (∀ {ε : Type u} {α : Type v} {e : ε} {value : Option α} {a : α},
      okOr value e = .ok a ↔ value = some a) ∧
    (∀ {ε ε' : Type u} {α : Type v} {x : Except ε α} {f : ε → ε'} {b : α},
      x.mapError f = .ok b ↔ x = .ok b) ∧
    (∀ {ε : Type u} {α : Type v} {e : ε} {c : Prop} [Decidable c] {k : Except ε α} {b : α},
      (if c then throw e else k) = .ok b ↔ ¬c ∧ k = .ok b) ∧
    ∀ {ε : Type u} {α β : Type v} {e : ε} {f : α → Except ε β} {c : Prop} [Decidable c]
      {k : Except ε β} {b : β},
      (if c then (throw e : Except ε α) >>= f else k) = .ok b ↔ ¬c ∧ k = .ok b :=
  ⟨bind_eq_ok, pure_eq_ok, okOr_eq_ok, mapError_eq_ok, guard_eq_ok, guard_bind_eq_ok⟩

/-! ## Failures -/

theorem bind_eq_error : (x >>= f) = .error e ↔ x = .error e ∨ ∃ a, x = .ok a ∧ f a = .error e := by
  cases x with
  | error | ok => simp [Bind.bind, Except.bind]

theorem pure_ne_error {a : α} : (pure a : Except ε α) ≠ .error e := by
  intro h
  cases h

theorem mapError_eq_error {f : ε → ε'} {e : ε'} :
    x.mapError f = .error e ↔ ∃ e', x = .error e' ∧ f e' = e := by
  cases x with
  | error | ok => simp [Except.mapError]

theorem okOr_eq_error {value : Option α} {error : ε} :
    okOr value error = .error e ↔ value = none ∧ error = e := by
  cases value with
  | none | some => simp [okOr]

theorem guard_eq_error [Decidable c] {e' : ε} :
    (if c then throw e else k) = .error e' ↔ c ∧ e = e' ∨ ¬c ∧ k = .error e' := by
  by_cases h : c
  · simp [h, throw, throwThe, MonadExceptOf.throw]
  · simp [h]

theorem guard_bind_eq_error [Decidable c] {e' : ε} {k : Except ε β} :
    (if c then (throw e : Except ε α) >>= f else k) = .error e' ↔ c ∧ e = e' ∨ ¬c ∧ k = .error e' :=
  guard_eq_error

/-! ## Lists of steps -/

variable {as : List α} {bs : List β}

theorem mapM_eq_ok : as.mapM f = .ok bs ↔ List.Forall₂ (fun a b => f a = .ok b) as bs := by
  induction as generalizing bs with
  | nil =>
    rw [mapM_nil, pure_eq_ok, forall₂_nil_left_iff]
    exact eq_comm
  | cons _ _ ih =>
    simp only [mapM_cons, bind_eq_ok, pure_eq_ok, forall₂_cons_left_iff, ih]
    constructor
    · rintro ⟨b, hb, rest, hr, rfl⟩
      exact ⟨b, rest, hb, hr, rfl⟩
    · rintro ⟨b, rest, hb, hr, rfl⟩
      exact ⟨b, hb, rest, hr, rfl⟩

theorem mapM_eq_some {f : α → Option β} :
    as.mapM f = some bs ↔ List.Forall₂ (fun a b => f a = some b) as bs := by
  induction as generalizing bs with
  | nil => simp [eq_comm]
  | cons _ _ ih =>
    simp only [mapM_cons, bind, Option.bind_eq_some_iff, pure, Option.some.injEq,
      forall₂_cons_left_iff, ih]
    constructor
    · rintro ⟨b, hb, rest, hr, rfl⟩
      exact ⟨b, rest, hb, hr, rfl⟩
    · rintro ⟨b, rest, hb, hr, rfl⟩
      exact ⟨b, hb, rest, hr, rfl⟩

theorem pairwise_append_singleton {R : α → α → Prop} {a : α} :
    (as ++ [a]).Pairwise R ↔ as.Pairwise R ∧ ∀ b ∈ as, R b a := by
  simp [pairwise_append]

theorem exists_forall₂ {R : α → β → Prop} (h : ∀ a ∈ as, ∃ b, R a b) :
    ∃ bs, List.Forall₂ R as bs := by
  induction as with
  | nil => exact ⟨[], .nil⟩
  | cons a _ ih =>
    obtain ⟨b, hb⟩ := h a mem_cons_self
    obtain ⟨bs, hbs⟩ := ih fun x hx => h x (mem_cons_of_mem a hx)
    exact ⟨b :: bs, .cons hb hbs⟩

end Pigeonpost
