import Mathlib.Logic.Basic

/-! # Methods that may fail

A method reads and changes one value in place and may fail in the middle; what it has
changed by then stays changed. -/

namespace Pigeonpost

abbrev Method (ε σ α : Type) : Type := ExceptT ε (StateM σ) α

namespace Method

variable {ε σ α β : Type}

/-- The outcome of a call and the value it leaves behind. -/
def exec (m : Method ε σ α) (s : σ) : Except ε α × σ := m.run s

/-- A decision that does not touch the value. -/
def check (x : Except ε α) : Method ε σ α := ExceptT.mk (pure x)

/-! ## What success means -/

variable {s t : σ} {a : α}

theorem exec_pure_eq_ok {b : α} : exec (pure a : Method ε σ α) s = (.ok b, t) ↔ a = b ∧ s = t := by
  have hp : exec (pure a : Method ε σ α) s = (.ok a, s) := rfl
  simp [hp]

variable {f : α → Method ε σ β} {m : Method ε σ α}

theorem exec_bind_of_ok (h : exec m s = (.ok a, t)) : exec (m >>= f) s = exec (f a) t := by
  have hr : m s = (.ok a, t) := h
  simp only [exec, Bind.bind, ExceptT.bind, ExceptT.mk, ExceptT.run, StateT.bind, hr]
  rfl

variable {e : ε}

theorem exec_bind_of_error (h : exec m s = (.error e, t)) : exec (m >>= f) s = (.error e, t) := by
  have hr : m s = (.error e, t) := h
  simp only [exec, Bind.bind, ExceptT.bind, ExceptT.mk, ExceptT.run, StateT.bind, hr]
  rfl

theorem exec_bind_eq_ok {b : β} : exec (m >>= f) s = (.ok b, t) ↔
      ∃ a u, exec m s = (.ok a, u) ∧ exec (f a) u = (.ok b, t) := by
  rcases hm : exec m s with ⟨e | a, u⟩
  · rw [exec_bind_of_error hm]
    simp
  · rw [exec_bind_of_ok hm]
    constructor
    · intro h
      exact ⟨a, u, rfl, h⟩
    · rintro ⟨a', u', heq, h⟩
      cases heq
      exact h

theorem exec_get_eq_ok {a : σ} : exec (get : Method ε σ σ) s = (.ok a, t) ↔ s = a ∧ s = t := by
  have hg : exec (get : Method ε σ σ) s = (.ok s, s) := rfl
  simp [hg]

theorem exec_set_eq_ok {u : σ} {b : PUnit} :
    exec (set u : Method ε σ PUnit) s = (.ok b, t) ↔ u = t := by
  have hs : exec (set u : Method ε σ PUnit) s = (.ok ⟨⟩, u) := rfl
  simp [hs]

theorem exec_check_eq_ok {x : Except ε α} :
    exec (check x : Method ε σ α) s = (.ok a, t) ↔ x = .ok a ∧ s = t := by
  have hc : exec (check x : Method ε σ α) s = (x, s) := rfl
  simp [hc]

theorem exec_throw_ne_ok : exec (throw e : Method ε σ α) s ≠ (.ok a, t) := by
  have ht : exec (throw e : Method ε σ α) s = (.error e, s) := rfl
  simp [ht]

variable {k : Method ε σ β} {c : Prop}

/-- A check that stands as a step of its own. -/
theorem exec_guard_bind_eq_ok [Decidable c] {b : β} :
    exec (if c then (throw e : Method ε σ α) >>= f else k) s = (.ok b, t) ↔
      ¬c ∧ exec k s = (.ok b, t) := by
  by_cases h : c
  · rw [if_pos h]
    exact ⟨fun ht => absurd ht exec_throw_ne_ok, fun ha => absurd h ha.1⟩
  · rw [if_neg h]
    exact ⟨fun hk => ⟨h, hk⟩, fun ha => ha.2⟩

/-! ## What failure leaves behind -/

/-- The method never changes the value. -/
def ReadOnly (m : Method ε σ α) : Prop := ∀ s, (exec m s).2 = s

/-- Where the method fails, it has not changed the value. -/
def Atomic (m : Method ε σ α) : Prop := ∀ s e, (exec m s).1 = .error e → (exec m s).2 = s

theorem readOnly_get : ReadOnly (get : Method ε σ σ) := fun _ => rfl

theorem readOnly_check (x : Except ε α) : ReadOnly (check x : Method ε σ α) := fun _ => rfl

theorem atomic_set (u : σ) : Atomic (set u : Method ε σ PUnit) := by
  intro s e h
  exact nomatch h

theorem atomic_set_pure (u : σ) (a : α) :
    Atomic ((set u : Method ε σ PUnit) >>= fun _ => pure a) := by
  intro s e h
  exact nomatch h

theorem atomic_throw (e : ε) : Atomic (throw e : Method ε σ α) := fun _ _ _ => rfl

theorem ReadOnly.bind_atomic (hm : ReadOnly m) (hf : ∀ a, Atomic (f a)) : Atomic (m >>= f) := by
  intro s e h
  have hk := hm s
  rcases hr : exec m s with ⟨e' | a, u⟩
  · rw [exec_bind_of_error hr]
    rwa [hr] at hk
  · rw [hr] at hk
    obtain rfl : u = s := hk
    rw [exec_bind_of_ok hr] at h ⊢
    exact hf a u e h

/-- What follows a change must not fail. -/
theorem Atomic.bind_of_ok (hm : Atomic m) (hf : ∀ a s, ∃ b t, exec (f a) s = (.ok b, t)) :
    Atomic (m >>= f) := by
  intro s e h
  rcases hr : exec m s with ⟨e' | a, u⟩
  · rw [exec_bind_of_error hr]
    have hk := hm s e'
    rw [hr] at hk
    exact hk rfl
  · rw [exec_bind_of_ok hr] at h
    obtain ⟨b, t, hok⟩ := hf a u
    rw [hok] at h
    cases h

theorem atomic_guard [Decidable c] (hk : Atomic k) : Atomic (if c then throw e else k) := by
  by_cases h : c
  · rw [if_pos h]
    exact atomic_throw e
  · rwa [if_neg h]

end Method

end Pigeonpost
