import Pigeonpost.Program.Group.Blobs

/-! # Attachment blobs and their references

A file is removed after the transaction that found it without references, and an upload that
finds it in between goes on to refer to it. Where the two never meet, no blob is lost. -/

namespace Pigeonpost.Groups.Blobs

open Blobs.Store List

/-- The file of an upload that has not yet its row. -/
def Task.holds : Task → List Digest
  | .put _ sha => [sha]
  | _ => []

/-- The files a request is about to remove. -/
def Task.removes : Task → List Digest
  | .removing shas => shas
  | _ => []

/-- The rows whose upload has returned have their file. -/
def Safe (s : Store) : Prop := ∀ row ∈ s.rows.rows, row.id ∈ s.returned → row.sha256 ∈ s.files

/-- No request is about to remove a file that an upload is about to refer to. -/
def Apart (s : Store) : Prop := ∀ t ∈ s.tasks, ∀ u ∈ s.tasks, ∀ sha ∈ t.holds, sha ∉ u.removes

instance : DecidablePred Safe := fun s => by unfold Safe; infer_instance

instance : DecidablePred Apart := fun s => by unfold Apart; infer_instance

/-- What has to hold of a request. -/
structure Task.Fits (t : Task) (s : Store) : Prop where
  held : ∀ sha ∈ t.holds, sha ∈ s.files
  unreferenced : ∀ sha ∈ t.removes, ∀ row ∈ s.rows.rows, row.sha256 ≠ sha

/-- Rows and uploads have their files, and a file is removed only without rows. -/
structure Kept (s : Store) : Prop where
  rows : ∀ row ∈ s.rows.rows, row.sha256 ∈ s.files
  tasks : ∀ t ∈ s.tasks, t.Fits s

variable {s : Store} {task : Task} {rows : KeyedTable Row.id} {sha : Digest}

theorem forall_ne_of_count (h : rows.count (·.sha256 = sha) = 0) :
    ∀ row ∈ rows.rows, row.sha256 ≠ sha := by
  intro row hr
  have hn := countP_eq_zero.mp h row hr
  simpa using hn

/-- A request that neither holds nor removes a file fits anywhere. -/
theorem fits_of_idle (hh : task.holds = []) (hr : task.removes = []) : task.Fits s := by
  constructor
  · simp [hh]
  · simp [hr]

theorem fits_put {gid : GroupId} (h : sha ∈ s.files) : (Task.put gid sha).Fits s := by
  constructor
  · simpa [Task.holds] using h
  · simp [Task.removes]

theorem fits_removing {shas : List Digest}
    (h : ∀ sha ∈ shas, ∀ row ∈ s.rows.rows, row.sha256 ≠ sha) : (Task.removing shas).Fits s := by
  constructor
  · simp [Task.holds]
  · exact h

/-- A task takes the place of another, or enters. -/
theorem Kept.with_tasks (h : Kept s) {tasks : List Task} (hf : task.Fits s)
    (htasks : ∀ t ∈ tasks, t = task ∨ t ∈ s.tasks) : Kept { s with tasks } := by
  refine ⟨h.rows, fun t ht => ?_⟩
  have hold : t.Fits s := by
    rcases htasks t ht with rfl | ht
    · exact hf
    · exact h.tasks t ht
  exact ⟨hold.held, hold.unreferenced⟩

/-- Rows may go, and keep their digests. -/
theorem Kept.with_rows (h : Kept s)
    (hr : ∀ row ∈ rows.rows, ∃ old ∈ s.rows.rows, old.sha256 = row.sha256) :
    Kept { s with rows } := by
  refine ⟨fun row hrow => ?_, fun t ht => ⟨(h.tasks t ht).held, fun sha hs row hrow => ?_⟩⟩
  · obtain ⟨old, hold, heq⟩ := hr row hrow
    exact heq ▸ h.rows old hold
  · obtain ⟨old, hold, heq⟩ := hr row hrow
    exact heq ▸ (h.tasks t ht).unreferenced sha hs old hold

section

variable (h : Kept s) (ha : Apart s)

include h ha

/-- The new row of an upload refers to a file that is there and that nobody removes. -/
theorem Kept.insert {gid : GroupId} {sha att : Bytes} {now : ℕ} (htask : .put gid sha ∈ s.tasks)
    (hins : s.rows.insert ⟨att, gid, sha, none, now⟩ = some rows) : Kept { s with rows } := by
  refine ⟨fun row hr => ?_, fun t ht => ⟨(h.tasks t ht).held, fun other ho row hr => ?_⟩⟩
  · rcases (KeyedTable.mem_insert hins).mp hr with hr | rfl
    · exact h.rows row hr
    · exact (h.tasks _ htask).held sha mem_cons_self
  · rcases (KeyedTable.mem_insert hins).mp hr with hr | rfl
    · exact (h.tasks t ht).unreferenced other ho row hr
    · rintro rfl
      exact ha _ htask t ht _ mem_cons_self ho

/-- A file without rows goes, and no upload had it. -/
theorem Kept.remove (htask : task ∈ s.tasks) (hr : sha ∈ task.removes) :
    Kept { s with files := s.files.filter (· ≠ sha) } := by
  refine ⟨fun row hrow => ?_, fun t ht => ⟨fun other ho => ?_, (h.tasks t ht).unreferenced⟩⟩
  · exact mem_filter.mpr ⟨h.rows row hrow,
      decide_eq_true ((h.tasks _ htask).unreferenced sha hr row hrow)⟩
  · refine mem_filter.mpr ⟨(h.tasks t ht).held other ho, decide_eq_true ?_⟩
    rintro rfl
    exact ha t ht _ htask other ho hr

/-- A step of a request: the others stay where they are, and its new place fits. -/
theorem Kept.advance (fails : Bool) (att : Bytes) (now : ℕ) (htask : task ∈ s.tasks)
    {after : Store} {next : Task} (hn : s.advance fails att now task = (after, next)) :
    after.tasks = s.tasks ∧ Kept after ∧ next.Fits after := by
  cases task with
  | probing =>
    cases hn
    refine ⟨rfl, h, ?_⟩
    split
    · next hf => exact fits_put hf
    · exact fits_of_idle rfl rfl
  | writing _ sha =>
    cases fails with
    | true =>
      cases hn
      exact ⟨rfl, h, fits_of_idle rfl rfl⟩
    | false =>
      cases hn
      refine ⟨rfl, ⟨fun row hrow => ?_, fun t ht => ?_⟩, fits_put mem_cons_self⟩
      · exact mem_cons_of_mem _ (h.rows row hrow)
      · exact ⟨fun sha hs => mem_cons_of_mem _ ((h.tasks t ht).held sha hs),
          (h.tasks t ht).unreferenced⟩
  | put =>
    simp only [advance] at hn
    split at hn
    · rename_i rows hr
      cases hn
      cases fails with
      | true => cases hr
      | false => exact ⟨rfl, h.insert ha htask hr, fits_of_idle rfl rfl⟩
    · cases hn
      exact ⟨rfl, h, fits_of_idle rfl rfl⟩
  | stored =>
    cases hn
    exact ⟨rfl, ⟨h.rows, fun t ht => ⟨(h.tasks t ht).held, (h.tasks t ht).unreferenced⟩⟩,
      fits_of_idle rfl rfl⟩
  | refused =>
    simp only [advance] at hn
    split at hn
    · rename_i hc
      cases hn
      refine ⟨rfl, h, fits_removing fun other ho => ?_⟩
      rw [mem_singleton.mp ho]
      exact forall_ne_of_count hc.2
    · cases hn
      exact ⟨rfl, h, fits_of_idle rfl rfl⟩
  | removing shas =>
    cases shas with
    | nil =>
      cases hn
      exact ⟨rfl, h, fits_of_idle rfl rfl⟩
    | cons _ shas =>
      have hrest : ∀ other ∈ shas, ∀ row ∈ s.rows.rows, row.sha256 ≠ other := fun other ho =>
        (h.tasks _ htask).unreferenced other (mem_cons_of_mem _ ho)
      cases fails with
      | true =>
        cases hn
        exact ⟨rfl, h, fits_removing hrest⟩
      | false =>
        cases hn
        exact ⟨rfl, h.remove ha htask mem_cons_self, fits_removing hrest⟩
  | finished =>
    cases hn
    exact ⟨rfl, h, fits_of_idle rfl rfl⟩

theorem Kept.step (action : Action) : Kept (s.step action) := by
  have he : ∀ {t task : Task}, t ∈ s.tasks ++ [task] → t = task ∨ t ∈ s.tasks :=
    fun ht => (mem_append.mp ht).symm.imp_left mem_singleton.mp
  cases action with
  | upload => exact h.with_tasks (fits_of_idle rfl rfl) fun t ht => he ht
  | release r =>
    have hk : Kept { s with rows := s.rows.delete r.picks } :=
      h.with_rows fun row hr => ⟨row, mem_of_mem_filter hr, rfl⟩
    refine hk.with_tasks (fits_removing fun sha hs => ?_) fun t ht => he ht
    exact forall_ne_of_count (of_decide_eq_true (mem_filter.mp hs).2)
  | attach =>
    refine h.with_rows fun row hr => ?_
    obtain ⟨old, hold, rfl⟩ := mem_map.mp hr
    refine ⟨old, hold, ?_⟩
    split <;> rfl
  | advance i fails att now =>
    simp only [Store.step]
    cases htask : s.tasks[i]? with
    | none => exact h
    | some =>
      obtain ⟨htasks, hk, hf⟩ := h.advance ha fails att now (mem_of_getElem? htask) rfl
      exact hk.with_tasks hf fun t ht => (mem_or_eq_of_mem_set ht).symm

end

/-- As long as no request is about to remove a file an upload is about to refer to, the blob of
every row whose upload has returned exists. -/
theorem attachment_blob_kept (actions : List Action)
    (hapart : ∀ earlier, earlier <+: actions → Apart (run earlier)) : Safe (run actions) := by
  have hk : Kept (run actions) := by
    induction actions using reverseRecOn with
    | nil => exact ⟨fun row hr => (not_mem_nil hr).elim, fun t ht => (not_mem_nil ht).elim⟩
    | append_singleton actions action ih =>
      rw [run, foldl_append]
      refine (ih fun earlier he => ?_).step (hapart actions (prefix_append _ _)) action
      exact hapart earlier (he.trans (prefix_append _ _))
  exact fun row hr _ => hk.rows row hr

namespace Sample

/-- One upload that is posted and deleted again, the next request of its content waiting. -/
def shared : List Action :=
  [.upload [9] [7], .advance 0 false [] 0, .advance 0 false [] 0, .advance 0 false [1] 0,
    .advance 0 false [] 0, .attach [9] [1] 3, .upload [9] [7], .advance 1 false [] 0]

/-- The second upload has its row before the deletion. -/
def inTime : List Action :=
  shared ++ [.advance 1 false [2] 0, .release (.deleteMessage [9] [3]), .advance 2 false [] 0]

theorem attachment_blob_kept_inTime : Safe (run inTime) := by
  refine attachment_blob_kept inTime fun earlier he => ?_
  rw [prefix_iff_eq_take.mp he]
  exact (by decide : ∀ n ≤ inTime.length, Apart (run (inTime.take n))) _ he.length_le

/-- The deletion finds the file without references before the second upload has its row, and
removes it after that upload has returned. -/
theorem attachment_blob_lost :
    ¬Safe (run (shared ++ [.release (.deleteMessage [9] [3]), .advance 1 false [2] 0,
      .advance 1 false [] 0, .advance 2 false [] 0])) := by
  decide

end Sample

end Pigeonpost.Groups.Blobs
