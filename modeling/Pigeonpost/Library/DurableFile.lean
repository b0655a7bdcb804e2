import Mathlib.Data.List.Basic

/-! # Files that a power loss can tear

A file that is only appended to and cut. What a program reads from it is its content;
what the medium is sure to hold is the content of its last completed sync. -/

namespace Pigeonpost

open List

/-- A file and what a crash leaves of it at least. -/
structure DurableFile (α : Type) where
  content : List α
  synced : List α

namespace DurableFile

variable {α : Type} {whole : List α}

/-- A new file, synced when it was created. -/
def empty : DurableFile α := ⟨[], []⟩

def write (file : DurableFile α) (data : List α) : DurableFile α :=
  { file with content := file.content ++ data }

/-- Cuts the file, or fills it up with `zero`. -/
def setLen (file : DurableFile α) (length : ℕ) (zero : α) : DurableFile α :=
  { file with
    content := file.content.take length ++ List.replicate (length - file.content.length) zero }

def sync (file : DurableFile α) : DurableFile α := { file with synced := file.content }

/-- What a power loss leaves of the changes since the last sync: some part of them, down
to none and up to all. -/
def tear (file : DurableFile α) (kept : ℕ) : List α :=
  (if file.synced.length ≤ file.content.length then file.content else file.synced).take
    (max kept (min file.synced.length file.content.length))

def powerLoss (file : DurableFile α) (kept : ℕ) : DurableFile α :=
  ⟨file.tear kept, file.tear kept⟩

/-- The file never held more than a beginning of `whole`, and no power loss changes that. -/
structure Within (file : DurableFile α) (whole : List α) : Prop where
  content : file.content <+: whole
  synced : file.synced <+: whole

variable {file : DurableFile α} {kept rest start : List α}

theorem Within.mono {more : List α} (h : file.Within whole) (hle : whole <+: more) :
    file.Within more :=
  ⟨h.content.trans hle, h.synced.trans hle⟩

theorem Within.sync (h : file.Within whole) : file.sync.Within whole :=
  ⟨h.content, h.content⟩

theorem within_sync (h : file.content = whole) : file.sync.Within whole :=
  ⟨h ▸ prefix_rfl, h ▸ prefix_rfl⟩

theorem setLen_content (zero : α) (h : file.content = kept ++ rest) :
    (file.setLen kept.length zero).content = kept := by
  simp [setLen, h]

theorem Within.setLen (h : file.Within whole) (zero : α)
    (hc : file.content = kept ++ rest) : (file.setLen kept.length zero).Within whole := by
  refine ⟨?_, h.synced⟩
  rw [setLen_content zero hc]
  exact (prefix_append kept rest).trans (hc ▸ h.content)

theorem Within.powerLoss (h : file.Within whole) (kept : ℕ) :
    (file.powerLoss kept).Within whole := by
  have ht : file.tear kept <+: whole := by
    unfold tear
    split
    · refine List.IsPrefix.trans ?_ h.content
      exact take_prefix _ _
    · refine List.IsPrefix.trans ?_ h.synced
      exact take_prefix _ _
  exact ⟨ht, ht⟩

/-- The file holds a beginning, and no power loss takes it away. -/
structure Holds (file : DurableFile α) (start : List α) : Prop where
  content : start <+: file.content
  synced : start <+: file.synced

theorem Holds.sync (h : file.Holds start) : file.sync.Holds start :=
  ⟨h.content, h.content⟩

theorem Holds.powerLoss (h : file.Holds start) (kept : ℕ) : (file.powerLoss kept).Holds start := by
  have hle : start.length ≤ max kept (min file.synced.length file.content.length) :=
    Nat.le_trans (Nat.le_min.mpr ⟨h.synced.length_le, h.content.length_le⟩) (Nat.le_max_right _ _)
  have ht : start <+: file.tear kept := by
    unfold tear
    split
    · exact prefix_take_iff.mpr ⟨h.content, hle⟩
    · exact prefix_take_iff.mpr ⟨h.synced, hle⟩
  exact ⟨ht, ht⟩

@[simp] theorem tear_of_synced (h : file.synced = file.content) (kept : ℕ) :
    file.tear kept = file.content := by
  unfold tear
  rw [h, ite_self, Nat.min_self]
  exact take_of_length_le (Nat.le_max_right _ _)

@[simp] theorem powerLoss_of_synced (h : file.synced = file.content) (kept : ℕ) :
    file.powerLoss kept = file := by
  obtain ⟨content, synced⟩ := file
  obtain rfl : synced = content := h
  simp [powerLoss]

end DurableFile

end Pigeonpost
