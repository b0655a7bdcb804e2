import Mathlib.Algebra.GroupWithZero.Nat
import Mathlib.Algebra.Order.BigOperators.Group.List
import Mathlib.Algebra.Order.Group.Nat
import Pigeonpost.Library.Table

/-! # Tables with a primary key

The rows of a table whose key column is unique, and the statements that read and
change it. No statement can produce two rows of one key. -/

namespace Pigeonpost

open List Table

@[ext] structure KeyedTable {α κ : Type} (key : α → κ) where
  rows : List α
  nodup : (rows.map key).Nodup
deriving DecidableEq

namespace KeyedTable

variable {α κ : Type} {key : α → κ}

def empty : KeyedTable key := ⟨[], List.nodup_nil⟩

/-- `UPDATE`: the rows change in place and keep their keys. -/
def update (t : KeyedTable key) (g : α → α) (hg : ∀ row, key (g row) = key row) : KeyedTable key :=
  ⟨t.rows.map g, by rw [List.map_map, show key ∘ g = key from funext hg]; exact t.nodup⟩

/-- `DELETE`. -/
def delete (t : KeyedTable key) (p : α → Bool) : KeyedTable key :=
  ⟨t.rows.filter fun row => !p row, t.nodup.sublist (List.filter_sublist.map key)⟩

/-- `SELECT COUNT(*)`. -/
def count (t : KeyedTable key) (p : α → Bool) : ℕ := t.rows.countP p

/-- `SELECT SUM(f)`, which is nothing over no rows. -/
def total (t : KeyedTable key) (f : α → ℕ) : ℕ := (t.rows.map f).sum

variable {p : α → Bool} {g : α → α} {hg : ∀ row, key (g row) = key row}

theorem count_update_le {t : KeyedTable key} (h : ∀ row ∈ t.rows, p (g row) = true → p row = true) :
    (t.update g hg).count p ≤ t.count p := by
  rw [count, update, countP_map]
  exact countP_mono_left h

theorem count_delete (t : KeyedTable key) (p q : α → Bool) :
    (t.delete p).count q + t.count (fun row => q row && p row) = t.count q := by
  rw [count, delete, countP_filter, count, count]
  induction t.rows with
  | nil => rfl
  | cons row =>
    simp only [countP_cons]
    cases q row <;> cases p row <;> simp <;> omega

variable [DecidableEq κ]

def lookup (t : KeyedTable key) (k : κ) : Option α := t.rows.find? fun row => key row = k

/-- `INSERT`, which fails on a key that is taken. -/
def insert (t : KeyedTable key) (row : α) : Option (KeyedTable key) :=
  if hnew : ∀ old ∈ t.rows, key old ≠ key row then
    some ⟨t.rows ++ [row], nodup_append_singleton t.nodup hnew⟩
  else none

/-- `UPDATE … WHERE key = k`. -/
def modify (t : KeyedTable key) (k : κ) (f : α → α) (hf : ∀ row, key (f row) = key row) :
    KeyedTable key :=
  t.update (fun row => if key row = k then f row else row) fun row => by
    by_cases h : key row = k
    · rw [if_pos h, hf]
    · rw [if_neg h]

/-- The row takes the place of the one with its key, or enters behind the others. -/
def put (t : KeyedTable key) (row : α) : KeyedTable key :=
  ⟨Table.upsert key row t.rows, Table.nodup_keys_upsert t.nodup⟩

/-- `INSERT … ON CONFLICT DO UPDATE`. -/
def insertOrModify (t : KeyedTable key) (row : α) (f : α → α)
    (hf : ∀ row, key (f row) = key row) : KeyedTable key :=
  match t.insert row with
  | some inserted => inserted
  | none => t.modify (key row) f hf

/-! ## What a lookup finds -/

variable {t t' : KeyedTable key} {k : κ} {row : α}

theorem lookup_eq_some : t.lookup k = some row ↔ row ∈ t.rows ∧ key row = k :=
  find_eq_some_iff t.nodup

theorem lookup_eq_none : t.lookup k = none ↔ ∀ old ∈ t.rows, key old ≠ k :=
  find_eq_none_iff

theorem key_of_lookup (h : t.lookup k = some row) : key row = k := (lookup_eq_some.mp h).2

theorem lookup_own (h : t.lookup k = some row) {k' : κ} (hk : key row = k') :
    t.lookup k' = some row := by
  rwa [← hk, key_of_lookup h]

theorem lookup_update : (t.update g hg).lookup k = (t.lookup k).map g := by
  unfold lookup update
  rw [find?_map]
  simp only [Function.comp_def, hg]

variable {f : α → α}

theorem lookup_modify_self (hf : ∀ row, key (f row) = key row) :
    (t.modify k f hf).lookup k = (t.lookup k).map f := by
  rw [modify, lookup_update]
  cases h : t.lookup k with
  | none => rfl
  | some => simp [key_of_lookup h]

theorem lookup_modify_of_ne {j : κ} (hf : ∀ row, key (f row) = key row) (hne : k ≠ j) :
    (t.modify j f hf).lookup k = t.lookup k := by
  rw [modify, lookup_update]
  cases h : t.lookup k with
  | none => rfl
  | some => simp [key_of_lookup h, hne]

theorem lookup_delete : (t.delete p).lookup k = (t.lookup k).filter fun row => !p row := by
  cases h : t.lookup k with
  | none =>
    rw [lookup_eq_none] at h
    exact lookup_eq_none.mpr fun old hold => h old (mem_of_mem_filter hold)
  | some row =>
    obtain ⟨hm, hkey⟩ := lookup_eq_some.mp h
    by_cases hp : p row = true
    · rw [Option.filter_some, if_neg (by simp [hp])]
      refine lookup_eq_none.mpr fun old hold hk => ?_
      obtain ⟨hold, hkeep⟩ := mem_filter.mp hold
      obtain rfl : old = row := inj_on_of_nodup_map t.nodup hold hm (hk.trans hkey.symm)
      simp [hp] at hkeep
    · rw [Option.filter_some, if_pos (by simp [hp])]
      exact lookup_eq_some.mpr ⟨mem_filter.mpr ⟨hm, by simp [hp]⟩, hkey⟩

theorem insert_eq_some :
    t.insert row = some t' ↔ t.lookup (key row) = none ∧ t'.rows = t.rows ++ [row] := by
  rw [lookup_eq_none]
  unfold insert
  constructor
  · intro h
    split at h
    · rename_i hn
      cases h
      exact ⟨hn, rfl⟩
    · cases h
  · rintro ⟨hn, hr⟩
    rw [dif_pos hn]
    exact congrArg some (KeyedTable.ext hr.symm)

/-! ## Single rows -/

theorem insert_eq_put (h : t.lookup (key row) = none) : t.insert row = some (t.put row) :=
  insert_eq_some.mpr ⟨h, upsert_of_forall_ne (lookup_eq_none.mp h)⟩

theorem modify_eq_put (hf : ∀ row, key (f row) = key row) (h : t.lookup k = some row) :
    t.modify k f hf = t.put (f row) := by
  obtain ⟨hm, hk⟩ := lookup_eq_some.mp h
  apply KeyedTable.ext
  refine Eq.trans ?_ (upsert_of_mem hm (hf row).symm).symm
  refine map_congr_left fun old hold => ?_
  by_cases ho' : key old = k
  · obtain rfl : old = row := inj_on_of_nodup_map t.nodup hold hm (ho'.trans hk.symm)
    rw [if_pos hk, if_pos (hf old).symm]
  · rw [if_neg ho', if_neg fun heq => ho' (heq.trans ((hf row).trans hk))]

theorem mem_put {x : α} : x ∈ (t.put row).rows ↔ x = row ∨ x ∈ t.rows ∧ key x ≠ key row :=
  mem_upsert

theorem mem_insert {x : α} (h : t.insert row = some t') : x ∈ t'.rows ↔ x ∈ t.rows ∨ x = row := by
  rw [(insert_eq_some.mp h).2, mem_append, mem_singleton]

theorem lookup_put : (t.put row).lookup k = if key row = k then some row else t.lookup k :=
  find_upsert t.rows k

theorem lookup_put_self : (t.put row).lookup (key row) = some row := lookup_put.trans (if_pos rfl)

theorem lookup_put_of_ne (hne : k ≠ key row) : (t.put row).lookup k = t.lookup k :=
  lookup_put.trans (if_neg hne.symm)

theorem lookup_insert (h : t.insert row = some t') :
    t'.lookup k = if key row = k then some row else t.lookup k := by
  rw [insert_eq_put (insert_eq_some.mp h).1] at h
  cases h
  exact lookup_put

theorem lookup_put_of_lookup {old : α} {k' : κ} (h : t.lookup k' = some old)
    (hk : key row = key old) (hne : k ≠ k') : (t.put row).lookup k = t.lookup k :=
  lookup_put_of_ne (by rwa [hk, key_of_lookup h])

theorem lookup_put_eq_some {row' : α} : (t.put row).lookup k = some row' ↔
    key row = k ∧ row' = row ∨ key row ≠ k ∧ t.lookup k = some row' := by
  by_cases hk : key row = k
  · subst hk
    simp [lookup_put_self, eq_comm]
  · simp [lookup_put_of_ne (Ne.symm hk), hk]

/-! ## Counting rows -/

theorem count_insert (h : t.insert row = some t') :
    t'.count p = t.count p + if p row then 1 else 0 := by
  rw [count, (insert_eq_some.mp h).2, countP_append, countP_singleton, count]

variable {old : α}

theorem rows_perm_of_lookup (h : t.lookup k = some old) :
    t.rows.Perm (old :: t.rows.filter fun x => key x ≠ k) := by
  obtain ⟨hm, rfl⟩ := lookup_eq_some.mp h
  have hs : (upsert key old t.rows).Perm
      (old :: t.rows.filter fun x => key x ≠ key old) := upsert_perm t.nodup
  refine List.Perm.trans (List.Perm.of_eq ?_) hs
  rw [upsert_of_mem hm rfl]
  symm
  refine (map_congr_left fun x hx => ?_).trans (map_id' _)
  by_cases hxk : key x = key old
  · rw [if_pos hxk]
    exact (inj_on_of_nodup_map t.nodup hx hm hxk).symm
  · rw [if_neg hxk]

theorem rows_put_perm : (t.put row).rows.Perm (row :: t.rows.filter fun x => key x ≠ key row) :=
  upsert_perm t.nodup

section

variable (h : t.lookup (key row) = some old)

include h

theorem count_put_of_lookup :
    (t.put row).count p + (if p old then 1 else 0) = t.count p + if p row then 1 else 0 := by
  rw [count, rows_put_perm.countP_eq, count, (rows_perm_of_lookup h).countP_eq]
  simp only [countP_cons]
  omega

theorem count_put_eq (hp : p row = p old) : (t.put row).count p = t.count p := by
  have hc := count_put_of_lookup (p := p) h
  rw [hp] at hc
  omega

theorem count_put_le (hp : p row = true → p old = true) : (t.put row).count p ≤ t.count p := by
  have hc := count_put_of_lookup (p := p) h
  cases hr : p row with
  | false => simp only [hr, Bool.false_eq_true, if_false] at hc; omega
  | true => simp only [hr, hp hr, if_true] at hc; omega

theorem count_put_succ (hold : p old = false)
    (hr : p row = true) : (t.put row).count p = t.count p + 1 := by
  have hc := count_put_of_lookup (p := p) h
  simpa [hold, hr] using hc

theorem count_put_le_succ : (t.put row).count p ≤ t.count p + 1 := by
  have hc := count_put_of_lookup (p := p) h
  have ho : (if p row = true then 1 else 0) ≤ 1 := by split <;> omega
  omega

end

theorem count_put_of_none (h : t.lookup (key row) = none) :
    (t.put row).count p = t.count p + if p row then 1 else 0 :=
  count_insert (insert_eq_put h)

omit [DecidableEq κ] in
/-- The rows that count have keys that counted before, but for a few others. -/
theorem count_le_of_keys {p q : α → Bool} (others : List κ) (h : ∀ row ∈ t'.rows, q row = true →
      key row ∈ others ∨ ∃ old ∈ t.rows, p old = true ∧ key old = key row) :
    t'.count q ≤ t.count p + others.length := by
  have hs : (t'.rows.filter q).map key ⊆ (t.rows.filter p).map key ++ others := by
    intro k hk
    obtain ⟨row, hr, rfl⟩ := mem_map.mp hk
    obtain ⟨hr, hq⟩ := mem_filter.mp hr
    rcases h row hr hq with ho | ⟨old, hold, hp, hkey⟩
    · exact mem_append_right _ ho
    · refine mem_append_left _ (mem_map.mpr ⟨old, ?_, hkey⟩)
      exact mem_filter.mpr ⟨hold, hp⟩
  have hn : ((t'.rows.filter q).map key).Nodup := t'.nodup.sublist (filter_sublist.map key)
  have hl := (subperm_of_subset hn hs).length_le
  rw [count, countP_eq_length_filter, count, countP_eq_length_filter]
  simpa using hl

/-! ## Sums over the rows -/

theorem total_insert (h : t.insert row = some t') (f : α → ℕ) : t'.total f = t.total f + f row := by
  rw [total, (insert_eq_some.mp h).2, total]
  simp

theorem total_put (t : KeyedTable key) (row : α) (f : α → ℕ) :
    (t.put row).total f + ((t.lookup (key row)).map f).getD 0 = t.total f + f row := by
  cases h : t.lookup (key row) with
  | none =>
    simpa using total_insert (insert_eq_put h) f
  | some =>
    rw [total, (rows_put_perm.map f).sum_eq, total, ((rows_perm_of_lookup h).map f).sum_eq]
    simp only [map_cons, sum_cons, Option.map_some, Option.getD_some]
    omega

theorem total_put_of_lookup (h : t.lookup (key row) = some old) (f : α → ℕ) :
    (t.put row).total f + f old = t.total f + f row := by
  simpa [h] using total_put t row f

theorem filter_picked_perm {picked : List α} (hm : ∀ x ∈ picked, x ∈ t.rows) (hn : picked.Nodup) :
    (t.rows.filter fun row => picked.any fun old => key old = key row).Perm picked := by
  rw [perm_ext_iff_of_nodup (t.nodup.of_map.filter _) hn]
  intro x
  rw [mem_filter, any_eq_true]
  constructor
  · rintro ⟨hx, old, hold, hk⟩
    rw [decide_eq_true_iff] at hk
    exact inj_on_of_nodup_map t.nodup (hm old hold) hx hk ▸ hold
  · exact fun hx => ⟨hm x hx, x, hx, decide_eq_true rfl⟩

theorem total_delete_picked {picked : List α} (hm : ∀ x ∈ picked, x ∈ t.rows)
    (hn : picked.Nodup) (f : α → ℕ) :
    (t.delete fun row => picked.any fun old => key old = key row).total f +
      (picked.map f).sum = t.total f := by
  rw [← ((filter_picked_perm hm hn).map f).sum_eq, total, delete, total]
  have hs := (filter_append_perm
    (fun row => picked.any fun old => decide (key old = key row)) t.rows).map f
  rw [← hs.sum_eq, map_append, sum_append, Nat.add_comm]

end KeyedTable

end Pigeonpost
