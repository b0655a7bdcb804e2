import Pigeonpost.Library.ByteString

/-! # Reading byte strings

Readers take what they need from the front and may refuse it. What a reader makes of an
encoding is stated so that it composes: on these bytes it returns the value where a
condition holds, and fails where it does not. -/

namespace Pigeonpost

open List

/-- Reads from the front of a byte string, or fails. -/
abbrev Reader (ε α : Type) : Type := StateT Bytes (Except ε) α

namespace Reader

variable {ε α β : Type}

/-- The next bytes, if there are so many. -/
def take (error : ε) (width : ℕ) : Reader ε Bytes := fun rest =>
  if rest.length < width then .error error else .ok (rest.take width, rest.drop width)

/-- A decision that reads nothing. -/
def check (x : Except ε α) : Reader ε α := fun rest => x.map fun a => (a, rest)

def many (r : Reader ε α) : ℕ → Reader ε (List α)
  | 0 => pure []
  | count + 1 => do
    let value ← r
    let rest ← many r count
    return value :: rest

/-- On these bytes the reader returns the value where it is accepted, and fails elsewhere. -/
def Reads (r : Reader ε α) (bytes : Bytes) (value : α) (accepted : Prop) : Prop :=
  ∀ rest, (accepted → r (bytes ++ rest) = .ok (value, rest)) ∧
    (¬accepted → ∃ e, r (bytes ++ rest) = .error e)

variable {r : Reader ε α} {bytes : Bytes} {q p : Prop}

theorem Reads.congr {value : α} (h : Reads r bytes value p) (hiff : p ↔ q) :
    Reads r bytes value q := by
  rwa [propext hiff] at h

theorem reads_pure (value : α) : Reads (pure value : Reader ε α) [] value True :=
  fun _ => ⟨fun _ => rfl, fun h => absurd trivial h⟩

theorem reads_take (error : ε) {width : ℕ} (h : bytes.length = width) :
    Reads (take error width) bytes bytes True := by
  intro rest
  refine ⟨fun _ => ?_, fun h => absurd trivial h⟩
  simp [take, h]

variable {f : α → Reader ε β} {b : β} {more : Bytes} {a : α}

theorem Reads.bind (hr : Reads r bytes a p) (hf : Reads (f a) more b q) :
    Reads (r >>= f) (bytes ++ more) b (p ∧ q) := by
  intro rest
  rw [append_assoc]
  constructor
  · rintro ⟨hp, hq⟩
    simp only [Bind.bind, StateT.bind, (hr (more ++ rest)).1 hp]
    exact (hf rest).1 hq
  · intro hn
    by_cases hp : p
    · obtain ⟨e, he⟩ := (hf rest).2 fun hq => hn ⟨hp, hq⟩
      exact ⟨e, by simp only [Bind.bind, StateT.bind, (hr (more ++ rest)).1 hp]; exact he⟩
    · obtain ⟨e, he⟩ := (hr (more ++ rest)).2 hp
      exact ⟨e, by simp only [Bind.bind, StateT.bind, he]; rfl⟩

/-- A first step that never refuses. -/
theorem Reads.step (hr : Reads r bytes a True) (hf : Reads (f a) more b q) :
    Reads (r >>= f) (bytes ++ more) b q :=
  (hr.bind hf).congr (by simp)

/-- A first step after which nothing is refused. -/
theorem Reads.bind_true (hr : Reads r bytes a p) (hf : Reads (f a) more b True) :
    Reads (r >>= f) (bytes ++ more) b p :=
  (hr.bind hf).congr (by simp)

/-- The last step reads nothing. -/
theorem Reads.bind_last (hr : Reads r bytes a p) (hf : Reads (f a) [] b q) :
    Reads (r >>= f) bytes b (p ∧ q) := by
  simpa using hr.bind hf

theorem Reads.check_bind {x : Except ε α} (hx : x = .ok a) (hf : Reads (f a) bytes b q) :
    Reads (check x >>= f) bytes b q := by
  subst hx
  exact hf

theorem Reads.ite_neg {c : Prop} [Decidable c] {r k : Reader ε β} (hc : ¬c)
    (hk : Reads k bytes b q) : Reads (if c then r else k) bytes b q := by
  rwa [if_neg hc]

theorem reads_many {write : α → Bytes} {accepted : α → Prop} {values : List α}
    (h : ∀ value ∈ values, Reads r (write value) value (accepted value)) :
    Reads (many r values.length) (values.flatMap write) values
      (∀ value ∈ values, accepted value) := by
  induction values with
  | nil => exact (reads_pure []).congr (by simp)
  | cons value values ih =>
    have hr := ih fun x hx => h x (mem_cons_of_mem _ hx)
    have ht : Reads (do let rest ← many r values.length; return value :: rest)
        (values.flatMap write) (value :: values) ((∀ x ∈ values, accepted x) ∧ True) :=
      hr.bind_last (reads_pure (value :: values))
    exact Reads.congr ((h value mem_cons_self).bind ht) (by simp)

end Reader

end Pigeonpost
