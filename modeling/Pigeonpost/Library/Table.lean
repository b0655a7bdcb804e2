import Mathlib.Data.List.Nodup
import Mathlib.Data.List.MinMax

/-! # Tables with a key column

A table is the list of its rows in insertion order. -/

namespace Pigeonpost.Table

open List

variable {α κ : Type} [DecidableEq κ] (key : α → κ)

/-- Replaces the row with the same key, or inserts a new one. -/
def upsert (row : α) (rows : List α) : List α :=
  if rows.any fun old => key old = key row then
    rows.map fun old => if key old = key row then row else old
  else rows ++ [row]

variable {key} {row : α} {rows : List α}

theorem any_key_iff :
    (rows.any fun old => key old = key row) = true ↔ ∃ old ∈ rows, key old = key row := by
  simp [any_eq_true]

theorem upsert_of_mem {old : α} (hm : old ∈ rows) (hk : key old = key row) :
    upsert key row rows = rows.map fun old => if key old = key row then row else old :=
  if_pos (any_key_iff.mpr ⟨old, hm, hk⟩)

theorem upsert_of_forall_ne (h : ∀ old ∈ rows, key old ≠ key row) :
    upsert key row rows = rows ++ [row] := by
  apply if_neg
  rw [any_key_iff]
  rintro ⟨old, hm, hk⟩
  exact h old hm hk

theorem mem_upsert {x : α} : x ∈ upsert key row rows ↔ x = row ∨ x ∈ rows ∧ key x ≠ key row := by
  by_cases hold : ∃ old ∈ rows, key old = key row
  · obtain ⟨old, hm, hk⟩ := hold
    rw [upsert_of_mem hm hk, mem_map]
    constructor
    · rintro ⟨y, hy, rfl⟩
      by_cases hyk : key y = key row
      · simp [hyk]
      · simp [hyk, hy]
    · rintro (rfl | ⟨hx, hne⟩)
      · exact ⟨old, hm, if_pos hk⟩
      · exact ⟨x, hx, if_neg hne⟩
  · push Not at hold
    rw [upsert_of_forall_ne hold, mem_append, mem_singleton]
    constructor
    · rintro (hx | rfl)
      · exact .inr ⟨hx, hold x hx⟩
      · exact .inl rfl
    · rintro (rfl | ⟨hx, -⟩)
      · exact .inr rfl
      · exact .inl hx

omit [DecidableEq κ] in
theorem nodup_append_singleton (hr : (rows.map key).Nodup) (hn : ∀ old ∈ rows, key old ≠ key row) :
    ((rows ++ [row]).map key).Nodup := by
  rw [map_append]
  refine hr.append (nodup_singleton _) ?_
  simpa [disjoint_singleton] using hn

theorem nodup_keys_upsert (h : (rows.map key).Nodup) : ((upsert key row rows).map key).Nodup := by
  by_cases hold : ∃ old ∈ rows, key old = key row
  · obtain ⟨old, hm, hk⟩ := hold
    have hs : (key ∘ fun old => if key old = key row then row else old) = key := by
      funext x
      by_cases hx : key x = key row
      · simp [hx]
      · simp [hx]
    rw [upsert_of_mem hm hk, map_map, hs]
    exact h
  · push Not at hold
    rw [upsert_of_forall_ne hold]
    exact nodup_append_singleton h hold

theorem find_eq_some_iff (h : (rows.map key).Nodup) {k : κ} {x : α} :
    (rows.find? fun row => key row = k) = some x ↔ x ∈ rows ∧ key x = k := by
  constructor
  · intro hf
    exact ⟨mem_of_find?_eq_some hf, by simpa using find?_some hf⟩
  · rintro ⟨hm, hk⟩
    induction rows with
    | nil => simp at hm
    | cons y _ ih =>
      rw [map_cons, nodup_cons] at h
      rcases mem_cons.mp hm with rfl | hys
      · simp [hk]
      · have hne : key y ≠ k := by
          rintro rfl
          exact h.1 (hk ▸ mem_map_of_mem hys)
        rw [find?_cons_of_neg (by simpa using hne)]
        exact ih h.2 hys

theorem find_eq_none_iff {k : κ} :
    (rows.find? fun row => key row = k) = none ↔ ∀ x ∈ rows, key x ≠ k := by
  simp

theorem find_upsert (rows : List α) (k : κ) : (upsert key row rows).find? (fun x => key x = k) =
      if key row = k then some row else rows.find? fun x => key x = k := by
  by_cases hold : ∃ old ∈ rows, key old = key row
  · obtain ⟨old, hm, hkey⟩ := hold
    have hs : ((fun x => decide (key x = k)) ∘ fun x => if key x = key row then row else x) =
        fun x => decide (key x = k) := by
      funext x
      by_cases hx : key x = key row
      · simp [hx]
      · simp [hx]
    rw [upsert_of_mem hm hkey, find?_map, hs]
    cases hf : rows.find? fun x => decide (key x = k) with
    | none =>
      have hne := find_eq_none_iff.mp hf old hm
      rw [hkey] at hne
      simp [hne]
    | some x =>
      have hx : key x = k := by simpa using find?_some hf
      by_cases hk : key row = k
      · simp [hx, hk]
      · simp [hx, hk, Ne.symm hk]
  · push Not at hold
    rw [upsert_of_forall_ne hold, find?_append]
    split_ifs with hk
    · rw [find_eq_none_iff.mpr (hk ▸ hold)]
      simp [hk]
    · simp [hk]

/-- Up to order an upsert is the new row in front of the rows of the other keys. -/
theorem upsert_perm (h : (rows.map key).Nodup) :
    (upsert key row rows).Perm (row :: rows.filter fun x => key x ≠ key row) := by
  have hn : (upsert key row rows).Nodup := (nodup_keys_upsert h).of_map
  have hold : (row :: rows.filter fun x => key x ≠ key row).Nodup := by
    refine nodup_cons.mpr ⟨?_, h.of_map.filter _⟩
    simp
  rw [perm_ext_iff_of_nodup hn hold]
  simp [mem_upsert]

theorem countP_upsert_of_mem (p : α → Bool) {old : α} (h : (rows.map key).Nodup)
    (hm : old ∈ rows) (hk : key old = key row) (hp : p row = p old) :
    (upsert key row rows).countP p = rows.countP p := by
  rw [upsert_of_mem hm hk, countP_map]
  apply countP_congr
  intro x hx
  by_cases hxk : key x = key row
  · obtain rfl : x = old := inj_on_of_nodup_map h hx hm (hxk.trans hk.symm)
    simp [hxk, hp]
  · simp [hxk]

/-! ## The newest row below a sequence number -/

section Newest

variable (key) (seq : α → ℕ)

/-- Of the rows of a key below `n`, the one with the largest sequence number. -/
def newestBefore (k : κ) (n : ℕ) (rows : List α) : Option α :=
  (rows.filter fun row => key row = k ∧ seq row < n).argmax seq

variable {key seq} {k : κ} {n : ℕ} {rows new : List α}

theorem newestBefore_append_of_le (hnew : ∀ row ∈ new, n ≤ seq row) :
    newestBefore key seq k n (rows ++ new) = newestBefore key seq k n rows := by
  have hn : new.filter (fun row => key row = k ∧ seq row < n) = [] := by
    rw [filter_eq_nil_iff]
    intro row hrow
    simp [Nat.not_lt.mpr (hnew row hrow)]
  rw [newestBefore, filter_append, hn, append_nil, newestBefore]

section

variable (hr : ∀ row ∈ rows, seq row < n)

include hr

/-- A bound above all rows is no bound. -/
theorem filter_of_lt :
    rows.filter (fun row => key row = k ∧ seq row < n) = rows.filter fun row => key row = k := by
  apply filter_congr
  intro row hrow
  simp [hr row hrow]

/-- Rows of other keys do not matter. -/
theorem newestBefore_succ_of_ne (hnew : ∀ row ∈ new, key row ≠ k) :
    newestBefore key seq k (n + 1) (rows ++ new) = newestBefore key seq k n rows := by
  have hn : new.filter (fun row => key row = k ∧ seq row < n + 1) = [] := by
    rw [filter_eq_nil_iff]
    intro row hrow
    simp [hnew row hrow]
  rw [newestBefore, filter_append, hn, append_nil, newestBefore,
    filter_of_lt hr, filter_of_lt fun row hrow => Nat.lt_succ_of_lt (hr row hrow)]

end

theorem newestBefore_succ_self (row : α) (hr : ∀ row ∈ rows, seq row < n) (hseq : seq row = n) :
    newestBefore key seq (key row) (n + 1) (rows ++ [row]) = some row := by
  have hs : [row].filter (fun old => key old = key row ∧ seq old < n + 1) = [row] := by
    simp [hseq]
  rw [newestBefore, filter_append, hs, argmax_concat]
  cases hm : (rows.filter fun old => key old = key row ∧ seq old < n + 1).argmax seq with
  | none => rfl
  | some old =>
    have hlt := hr old (mem_filter.mp (argmax_mem hm)).1
    simp [hseq, hlt]

/-- A row that only rows of smaller sequence share its key with is the newest. -/
theorem newestBefore_eq_some (hm : row ∈ rows) (hlt : seq row < n)
    (hmax : ∀ old ∈ rows, key old = key row → seq old ≤ seq row)
    (hinj : ∀ old ∈ rows, seq old = seq row → old = row) :
    newestBefore key seq (key row) n rows = some row := by
  have hrow : row ∈ rows.filter fun old => key old = key row ∧ seq old < n := by
    simp [hm, hlt]
  cases hb : newestBefore key seq (key row) n rows with
  | none =>
    rw [newestBefore, argmax_eq_none] at hb
    exact absurd (hb ▸ hrow) not_mem_nil
  | some best =>
    obtain ⟨hbm, hbk⟩ := mem_filter.mp (argmax_mem hb)
    have hle := hmax best hbm (by simpa using (of_decide_eq_true hbk).1)
    rw [hinj best hbm (le_antisymm hle (le_of_mem_argmax hrow hb))]

theorem newestBefore_eq_none (h : ∀ row ∈ rows, key row ≠ k) :
    newestBefore key seq k n rows = none := by
  rw [newestBefore, argmax_eq_none, filter_eq_nil_iff]
  intro row hrow
  simp [h row hrow]

end Newest

end Pigeonpost.Table
