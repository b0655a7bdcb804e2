import Mathlib.Data.List.GetD

/-! # Interruptible programs

A program over a store may stop between any two of its actions. It is a function of
the store, and its run keeps the stores it passed through, so that a property of every
point of interruption can be stated and composed. -/

namespace Pigeonpost

open List

/-- What a program came to. -/
structure Script.Run (σ α : Type) where
  value : α
  final : σ
  /-- The store before each action, in order. -/
  passed : List σ

def Script (σ α : Type) : Type := σ → Script.Run σ α

namespace Script

variable {σ α β ε : Type}

instance : Monad (Script σ) where
  pure value := fun store => ⟨value, store, []⟩
  bind x f := fun store =>
    ⟨(f (x store).value (x store).final).value, (f (x store).value (x store).final).final,
      (x store).passed ++ (f (x store).value (x store).final).passed⟩

/-- Looks at the store. -/
def get : Script σ σ := fun store => ⟨store, store, []⟩

def act (action : σ → σ) : Script σ Unit := fun store => ⟨(), action store, [store]⟩

/-- The store a stop after so many actions leaves behind. -/
def stopAfter (x : Script σ α) (actions : ℕ) (store : σ) : σ :=
  (x store).passed.getD actions (x store).final

/-- A program over a part of a larger store. -/
def focus {τ : Type} (part : τ → σ) (replace : σ → τ → τ) (x : Script σ α) : Script τ α :=
  fun store => ⟨(x (part store)).value, replace (x (part store)).final store,
    (x (part store)).passed.map (replace · store)⟩

variable {store : σ}

@[simp] theorem pure_apply : (pure a : Script σ α) store = ⟨a, store, []⟩ := rfl

@[simp] theorem get_apply : get store = ⟨store, store, []⟩ := rfl

@[simp] theorem act_apply (action : σ → σ) : act action store = ⟨(), action store, [store]⟩ := rfl

theorem bind_apply (x : Script σ α) (f : α → Script σ β) : (x >>= f) store =
      ⟨(f (x store).value (x store).final).value, (f (x store).value (x store).final).final,
        (x store).passed ++ (f (x store).value (x store).final).passed⟩ := rfl

variable {x : Script σ α} {run : Run σ α}

theorem bind_apply_of_eq (h : x store = run) (f : α → Script σ β) :
    (x >>= f) store = ⟨(f run.value run.final).value, (f run.value run.final).final,
        run.passed ++ (f run.value run.final).passed⟩ := by
  rw [bind_apply, h]

variable {passed : List σ} {final : σ}

/-- A program can be stopped only before an action or at its end. -/
theorem stopAfter_mem {value : α} (h : x store = ⟨value, final, passed⟩) (actions : ℕ) :
    x.stopAfter actions store ∈ final :: passed := by
  rw [stopAfter, h]
  by_cases hlt : actions < passed.length
  · rw [getD_eq_getElem _ _ hlt]
    exact mem_cons_of_mem _ (getElem_mem hlt)
  · rw [getD_eq_default _ _ (Nat.le_of_not_lt hlt)]
    exact mem_cons_self

theorem focus_apply_of_eq {τ : Type} {part : τ → σ} {replace : σ → τ → τ} {whole : τ}
    (h : x (part whole) = run) :
    x.focus part replace whole =
      ⟨run.value, replace run.final whole, run.passed.map (replace · whole)⟩ := by
  rw [focus, h]

/-! ## Programs that may fail -/

variable {f : α → ExceptT ε (Script σ) β} {x : ExceptT ε (Script σ) α}

@[simp] theorem run_pure :
    (pure a : ExceptT ε (Script σ) α).run store = ⟨.ok a, store, []⟩ := rfl

@[simp] theorem run_get_bind (f : σ → ExceptT ε (Script σ) β) :
    ((liftM (get : Script σ σ) : ExceptT ε (Script σ) σ) >>= f).run store = (f store).run store :=
  rfl

@[simp] theorem run_act_bind (action : σ → σ) (f : Unit → ExceptT ε (Script σ) β) :
    ((liftM (act action) : ExceptT ε (Script σ) Unit) >>= f).run store =
      ⟨((f ()).run (action store)).value, ((f ()).run (action store)).final,
        store :: ((f ()).run (action store)).passed⟩ := rfl

@[simp] theorem run_ok_bind :
    ((liftM (Except.ok a : Except ε α) : ExceptT ε (Script σ) α) >>= f).run store =
      (f a).run store := rfl

@[simp] theorem run_error_bind (e : ε) :
    ((liftM (Except.error e : Except ε α) : ExceptT ε (Script σ) α) >>= f).run store =
      ⟨.error e, store, []⟩ := rfl

/-- A program that cannot fail, as a step of one that can. -/
theorem run_lift_bind (x : Script σ α) : ((liftM x : ExceptT ε (Script σ) α) >>= f).run store =
      ⟨((f (x store).value).run (x store).final).value,
        ((f (x store).value).run (x store).final).final,
        (x store).passed ++ ((f (x store).value).run (x store).final).passed⟩ := by
  have h : (liftM x : ExceptT ε (Script σ) α).run store =
      ⟨.ok (x store).value, (x store).final, (x store).passed ++ []⟩ := rfl
  rw [ExceptT.run_bind, bind_apply_of_eq h, append_nil]

theorem run_bind_of_ok {a : α} (h : x.run store = ⟨.ok a, final, passed⟩) :
    (x >>= f).run store =
      ⟨((f a).run final).value, ((f a).run final).final, passed ++ ((f a).run final).passed⟩ := by
  rw [ExceptT.run_bind, bind_apply_of_eq h]

theorem run_bind_of_error {e : ε} (h : x.run store = ⟨.error e, final, passed⟩) :
    (x >>= f).run store = ⟨.error e, final, passed⟩ := by
  rw [ExceptT.run_bind, bind_apply_of_eq h]
  simp

/-! ## Weakest preconditions

Of a program that may fail and may be stopped: every store in which it can be stopped
satisfies `through`, and its end satisfies `post` or `fail`. -/

variable {through : σ → Prop} {post : α → σ → Prop} {fail : ε → σ → Prop}

/-- How a program ended. -/
def Ends (post : α → σ → Prop) (fail : ε → σ → Prop) (run : Run σ (Except ε α)) : Prop :=
  match run.value with
  | .ok value => post value run.final
  | .error e => fail e run.final

def wp (x : ExceptT ε (Script σ) α) (through : σ → Prop) (post : α → σ → Prop)
    (fail : ε → σ → Prop) (store : σ) : Prop :=
  (∀ passed ∈ (x.run store).passed, through passed) ∧ Ends post fail (x.run store)

/-! ### Rules -/

@[simp] theorem wp_pure (a : α) : wp (pure a) through post fail store ↔ post a store := by
  simp [wp, Ends]

@[simp] theorem wp_throw (e : ε) :
    wp (throw e : ExceptT ε (Script σ) α) through post fail store ↔ fail e store := by
  simp [wp, Ends]

@[simp] theorem wp_get {post : σ → σ → Prop} :
    wp (liftM (get : Script σ σ) : ExceptT ε (Script σ) σ) through post fail store ↔
      post store store := by
  have h : (liftM (get : Script σ σ) : ExceptT ε (Script σ) σ).run store =
      ⟨.ok store, store, []⟩ := rfl
  simp [wp, Ends, h]

@[simp] theorem wp_act {post : Unit → σ → Prop} (action : σ → σ) :
    wp (liftM (act action) : ExceptT ε (Script σ) Unit) through post fail store ↔
      through store ∧ post () (action store) := by
  have h : (liftM (act action) : ExceptT ε (Script σ) Unit).run store =
      ⟨.ok (), action store, [store]⟩ := rfl
  simp [wp, Ends, h]

@[simp] theorem wp_ok (a : α) :
    wp (liftM (Except.ok a : Except ε α) : ExceptT ε (Script σ) α) through post fail store ↔
      post a store :=
  wp_pure a

@[simp] theorem wp_error (e : ε) :
    wp (liftM (Except.error e : Except ε α) : ExceptT ε (Script σ) α) through post fail store ↔
      fail e store :=
  wp_throw e

@[simp] theorem wp_bind (x : ExceptT ε (Script σ) α) (f : α → ExceptT ε (Script σ) β)
    {post : β → σ → Prop} :
    wp (x >>= f) through post fail store ↔
      wp x through (fun a => wp (f a) through post fail) fail store := by
  rcases hr : x.run store with ⟨value, final, passed⟩
  cases value with
  | ok =>
    rw [wp, run_bind_of_ok hr, wp, hr]
    simp only [mem_append, or_imp, forall_and, and_assoc]
    rfl
  | error =>
    rw [wp, run_bind_of_error hr, wp, hr]
    rfl

@[simp] theorem wp_ite {c : Prop} [Decidable c] (x y : ExceptT ε (Script σ) α) :
    wp (if c then x else y) through post fail store ↔
      (c → wp x through post fail store) ∧ (¬ c → wp y through post fail store) := by
  by_cases h : c <;> simp [h]

/-- A check that refuses. -/
theorem wp_guard {c : Prop} [Decidable c] {e : ε} {f : β → ExceptT ε (Script σ) α}
    (hf : c → fail e store) (hn : ¬c → wp x through post fail store) :
    wp (if c then throw e >>= f else x) through post fail store := by
  rw [wp_ite, wp_bind, wp_throw]
  exact ⟨hf, hn⟩

theorem wp_mono {post' : α → σ → Prop} {fail' : ε → σ → Prop} (h : wp x through post fail store)
    (hp : ∀ a s, post a s → post' a s) (hf : ∀ e s, fail e s → fail' e s) :
    wp x through post' fail' store := by
  refine ⟨h.1, ?_⟩
  have he := h.2
  unfold Ends at he ⊢
  split at he
  · exact hp _ _ he
  · exact hf _ _ he

/-! ### What the rules are for -/

/-- Wherever the program is stopped, it leaves a store it could be stopped in, or its end. -/
theorem wp_stopAfter (h : wp x through (fun _ => through) (fun _ => through) store) (actions : ℕ) :
    through (x.run.stopAfter actions store) := by
  rcases mem_cons.mp (stopAfter_mem (x := x.run) rfl actions) with heq | hm
  · have he := h.2
    rw [heq]
    unfold Ends at he
    split at he <;> exact he
  · exact h.1 _ hm

theorem wp_final {done : σ → Prop} (h : wp x through (fun _ => done) (fun _ => done) store) :
    done (x.run store).final := by
  have he := h.2
  unfold Ends at he
  split at he <;> exact he

/-- A program that cannot fail gives a value. -/
theorem wp_ok_of (h : wp x through post (fun _ _ => False) store) :
    ∃ value, (x.run store).value = .ok value ∧ post value (x.run store).final := by
  have he := h.2
  unfold Ends at he
  split at he
  · exact ⟨_, by assumption, he⟩
  · exact he.elim

/-- A program that cannot succeed fails. -/
theorem wp_error_of (h : wp x through (fun _ _ => False) fail store) :
    ∃ e, (x.run store).value = .error e ∧ fail e (x.run store).final := by
  have he := h.2
  unfold Ends at he
  split at he
  · exact he.elim
  · exact ⟨_, by assumption, he⟩

end Script

end Pigeonpost
