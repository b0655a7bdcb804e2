import Mathlib.Data.List.Induction

/-! # Machines with outputs

A machine takes one event after another and hands something out at each. What it
handed out over a run belongs to the run's invariants. -/

namespace Pigeonpost.Machine

open List

variable {σ ε ω : Type*}

/-- The last state of a run and everything it handed out, in order. -/
def run (step : σ → ε → σ × List ω) (start : σ) (events : List ε) : σ × List ω :=
  events.foldl (fun reached event =>
    ((step reached.1 event).1, reached.2 ++ (step reached.1 event).2)) (start, [])

section

variable (step : σ → ε → σ × List ω)

include step

variable (start : σ)

theorem run_append_singleton (events : List ε) (event : ε) :
    run step start (events ++ [event]) = ((step (run step start events).1 event).1,
        (run step start events).2 ++ (step (run step start events).1 event).2) := by
  simp [run]

/-- The state does not depend on what was handed out. -/
theorem run_fst (events : List ε) :
    (run step start events).1 = events.foldl (fun state event => (step state event).1) start := by
  induction events using reverseRecOn with
  | nil => rfl
  | append_singleton _ _ ih =>
    rw [run_append_singleton, foldl_append, ih]
    rfl

end

/-- What holds at the start and is kept by every step holds after every run. -/
theorem run_invariant {step : σ → ε → σ × List ω} {start : σ} (Inv : σ → List ω → Prop)
    (hs : Inv start []) (events : List ε)
    (hstep : ∀ event ∈ events, ∀ state out, Inv state out →
      Inv (step state event).1 (out ++ (step state event).2)) :
    Inv (run step start events).1 (run step start events).2 := by
  induction events using reverseRecOn with
  | nil => exact hs
  | append_singleton _ event ih =>
    rw [run_append_singleton]
    refine hstep event (by simp) _ _ (ih ?_)
    intro earlier hm
    exact hstep earlier (by simp [hm])

end Pigeonpost.Machine
