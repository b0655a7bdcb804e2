import Mathlib.Data.Nat.Notation

/-! # Watch channels

A watch channel keeps one value and the number of times it was sent. A receiver keeps the
number it has seen; a new receiver regards the current value as seen. -/

namespace Pigeonpost

/-- A value and the number of its changes. -/
structure Watch (α : Type) where
  value : α
  version : ℕ

namespace Watch

variable {α : Type}

/-- A channel whose first value nobody has to be told. -/
def new (value : α) : Watch α := ⟨value, 0⟩

/-- What a receiver that starts now has seen. -/
def subscribe (channel : Watch α) : ℕ := channel.version

/-- Whether a receiver would be woken. -/
def changed (channel : Watch α) (seen : ℕ) : Bool := channel.version != seen

def send (channel : Watch α) (value : α) : Watch α := ⟨value, channel.version + 1⟩

/-- Sends what `modify` makes of the value, unless it leaves the value alone. -/
def sendIfModified (channel : Watch α) (modify : α → Option α) : Watch α :=
  match modify channel.value with
  | none => channel
  | some value => channel.send value

@[simp] theorem changed_subscribe (channel : Watch α) :
    channel.changed channel.subscribe = false := by
  simp [changed, subscribe]

end Watch

/-! ## Channels that are set once -/

namespace Watch

variable {α : Type} {channel : Watch (Option α)}

def setOnce (channel : Watch (Option α)) (value : α) : Watch (Option α) :=
  channel.sendIfModified fun
    | none => some (some value)
    | some _ => none

/-- Nothing was sent, or one value was. -/
def SetOnce (channel : Watch (Option α)) : Prop :=
  (channel.value = none ∧ channel.version = 0) ∨ (channel.value.isSome ∧ channel.version = 1)

theorem setOnce_new : SetOnce (new (none : Option α)) := .inl ⟨rfl, rfl⟩

theorem SetOnce.setOnce (h : channel.SetOnce) (value : α) : (channel.setOnce value).SetOnce := by
  rcases h with ⟨hv, hver⟩ | ⟨hv, hver⟩
  · refine .inr ⟨?_, ?_⟩
    · simp [Watch.setOnce, sendIfModified, hv, send]
    · simp [Watch.setOnce, sendIfModified, hv, send, hver]
  · obtain ⟨old, hold⟩ := Option.isSome_iff_exists.mp hv
    have hs : channel.setOnce value = channel := by
      simp [Watch.setOnce, sendIfModified, hold]
    rw [hs]
    exact .inr ⟨hv, hver⟩

/-- A receiver that came before the value is woken by it. -/
theorem SetOnce.changed (h : channel.SetOnce) (hs : channel.value.isSome) :
    channel.changed 0 = true := by
  rcases h with ⟨hvalue, -⟩ | ⟨-, hv⟩
  · rw [hvalue] at hs
    cases hs
  · simp [Watch.changed, hv]

/-- A receiver that starts before the value has seen nothing. -/
theorem SetOnce.subscribe (h : channel.SetOnce) (hu : channel.value = none) :
    channel.subscribe = 0 := by
  rcases h with ⟨-, hver⟩ | ⟨hv, -⟩
  · exact hver
  · rw [hu] at hv
    cases hv

end Watch

end Pigeonpost
