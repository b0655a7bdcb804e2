import Pigeonpost.Library.Outcome
import Pigeonpost.Program.Client.Audit

/-! # What a handle projection means -/

namespace Pigeonpost

open HandleProjectionStore List AList

/-- The contract of a projection store: `current` is the binding of each handle, and
`saved` what the bindings were when the open segment began. -/
class LawfulHandleProjection (P : Type) [HandleProjectionStore P] where
  current : P → Bytes → Option AuditedHandleBinding
  saved : P → Option (Bytes → Option AuditedHandleBinding)
  reset_ok : ∀ {p p' : P}, reset p = .ok p' → (∀ handle, current p' handle = none) ∧ saved p' = none
  begin_ok : ∀ {p p' : P}, beginSegment p = .ok p' → current p' = current p ∧
    saved p' = some (current p)
  commit_ok : ∀ {p p' : P}, commitSegment p = .ok p' → current p' = current p ∧ saved p' = none
  rollback_ok : ∀ {p p' : P}, rollbackSegment p = .ok p' → saved p = some (current p') ∧
    saved p' = none
  apply_ok : ∀ {p p' : P} {mutation : AuditedHandleMutation}, apply p mutation = .ok p' →
    current p' = Function.update (current p) mutation.handle (some mutation.binding) ∧
      saved p' = saved p
  binding_ok : ∀ {p : P} {handle : Handle} {result : Option AuditedHandleBinding},
    binding p handle = .ok result → result = current p handle.asPath

namespace InMemoryHandleProjection

/-- The bindings before the open segment, read through its undo entries. -/
def before (bindings : HashMap Bytes AuditedHandleBinding)
    (undo : HashMap Bytes (Option AuditedHandleBinding)) (handle : Bytes) :
    Option AuditedHandleBinding :=
  (undo.lookup handle).getD (bindings.lookup handle)

variable (bindings : HashMap Bytes AuditedHandleBinding)

theorem lookup_restore (saved : (_ : Bytes) × Option AuditedHandleBinding) (handle : Bytes) :
    (restore bindings saved).lookup handle =
      if handle = saved.1 then saved.2 else bindings.lookup handle := by
  obtain ⟨key, value⟩ := saved
  unfold restore
  by_cases hk : handle = key
  · subst hk
    cases value with
    | none => simp [lookup_erase]
    | some => simp [lookup_insert]
  · cases value with
    | none => simp [hk, lookup_erase_ne hk]
    | some => simp [hk, lookup_insert_ne hk]

/-- Undoing the entries of a segment, each handle once, gives the old bindings. -/
theorem lookup_foldl_restore (entries : List ((_ : Bytes) × Option AuditedHandleBinding))
    (hn : entries.NodupKeys) (bindings : HashMap Bytes AuditedHandleBinding) (handle : Bytes) :
    (entries.foldl restore bindings).lookup handle =
      (entries.dlookup handle).getD (bindings.lookup handle) := by
  induction entries generalizing bindings with
  | nil => rfl
  | cons saved _ ih =>
    obtain ⟨key, value⟩ := saved
    rw [nodupKeys_cons] at hn
    obtain ⟨hk, hr⟩ := hn
    rw [foldl_cons, ih hr, lookup_restore]
    by_cases hs : handle = key
    · subst hs
      rw [dlookup_eq_none.mpr hk]
      simp
    · simp [hs]

theorem before_apply (undo : HashMap Bytes (Option AuditedHandleBinding)) (key : Bytes)
    (binding : AuditedHandleBinding) :
    before (bindings.insert key binding) (remember undo key (bindings.lookup key)) =
      before bindings undo := by
  funext handle
  unfold before remember
  by_cases hs : handle = key
  · subst hs
    cases hu : undo.lookup handle with
    | none => simp [lookup_insert]
    | some => simp [hu]
  · rw [lookup_insert_ne hs]
    split
    · rfl
    · rw [lookup_insert_ne hs]

instance : LawfulHandleProjection InMemoryHandleProjection where
  current p := p.bindings.lookup
  saved p := p.segmentUndo.map (before p.bindings)
  reset_ok := by
    intro p p' h
    cases h
    exact ⟨fun handle => AList.lookup_empty handle, rfl⟩
  begin_ok := by
    intro p p' h
    simp only [HandleProjectionStore.beginSegment, InMemoryHandleProjection.beginSegment] at h
    split at h
    · simp at h
    · cases h
      exact ⟨rfl, by simp [before, funext_iff]⟩
  commit_ok := by
    intro p p' h
    simp only [HandleProjectionStore.commitSegment, InMemoryHandleProjection.commitSegment] at h
    split at h
    · cases h
    cases h
    exact ⟨rfl, rfl⟩
  rollback_ok := by
    intro p p' h
    simp only [HandleProjectionStore.rollbackSegment, InMemoryHandleProjection.rollbackSegment] at h
    split at h
    · cases h
    rename_i undo hundo
    cases h
    rw [hundo]
    refine ⟨congrArg some (funext fun handle => ?_), rfl⟩
    rw [lookup_foldl_restore _ undo.nodupKeys]
    rfl
  apply_ok := by
    intro p p' mutation h
    simp only [HandleProjectionStore.apply, InMemoryHandleProjection.apply, ok_iff] at h
    obtain ⟨⟨⟩, -, rfl⟩ := h
    constructor
    · funext handle
      by_cases hsame : handle = mutation.handle
      · subst hsame
        simp [AList.lookup_insert]
      · simp [AList.lookup_insert_ne hsame, hsame]
    · cases p.segmentUndo with
      | none => rfl
      | some undo => exact congrArg some (before_apply _ _ _ _)
  binding_ok := by
    intro p handle result h
    exact (Except.ok.inj h).symm

/-! ## Segments -/

/-- Mutations in turn. One that is refused changes nothing. -/
def applyAll (p : InMemoryHandleProjection) (mutations : List AuditedHandleMutation) :
    InMemoryHandleProjection :=
  mutations.foldl (fun p mutation => (p.apply mutation).toOption.getD p) p

/-- A replay that is committed or rolled back. -/
structure Segment where
  mutations : List AuditedHandleMutation
  committed : Bool

def runSegment (p : InMemoryHandleProjection) (segment : Segment) :
    Except RegistryError InMemoryHandleProjection := do
  let p ← p.beginSegment
  let p := p.applyAll segment.mutations
  if segment.committed then p.commitSegment else p.rollbackSegment

open LawfulHandleProjection

/-- The open segment's begin stays in sight. -/
theorem saved_applyAll (p : InMemoryHandleProjection) (mutations : List AuditedHandleMutation) :
    saved (p.applyAll mutations) = saved p := by
  induction mutations generalizing p with
  | nil => rfl
  | cons mutation mutations ih =>
    refine (ih _).trans (?_ : saved ((p.apply mutation).toOption.getD p) = saved p)
    cases h : p.apply mutation with
    | error => rfl
    | ok => exact (apply_ok h).2

/-- What mutations do depends on the bindings alone. -/
theorem current_applyAll {p q : InMemoryHandleProjection} (h : current p = current q)
    (mutations : List AuditedHandleMutation) :
    current (p.applyAll mutations) = current (q.applyAll mutations) := by
  induction mutations generalizing p q with
  | nil => exact h
  | cons mutation mutations ih =>
    refine ih (?_ : current ((p.apply mutation).toOption.getD p) =
      current ((q.apply mutation).toOption.getD q))
    have hh : p.bindings.lookup mutation.handle = q.bindings.lookup mutation.handle := congrFun h _
    cases hv : validateHandleTransition (q.bindings.lookup mutation.handle) mutation with
    | error e =>
      have hp : p.apply mutation = .error e := by rw [InMemoryHandleProjection.apply, hh, hv]; rfl
      have hq : q.apply mutation = .error e := by rw [InMemoryHandleProjection.apply, hv]; rfl
      rw [hp, hq]
      exact h
    | ok =>
      obtain ⟨p', hp⟩ : ∃ p', p.apply mutation = .ok p' := by
        rw [InMemoryHandleProjection.apply, hh, hv]
        exact ⟨_, rfl⟩
      obtain ⟨q', hq⟩ : ∃ q', q.apply mutation = .ok q' := by
        rw [InMemoryHandleProjection.apply, hv]
        exact ⟨_, rfl⟩
      have ha := (apply_ok (P := InMemoryHandleProjection) hp).1
      rw [h, ← (apply_ok (P := InMemoryHandleProjection) hq).1] at ha
      rw [hp, hq]
      exact ha

theorem runSegment_eq {p : InMemoryHandleProjection} (h : saved p = none) (segment : Segment) :
    ∃ p', p.runSegment segment = .ok p' ∧ saved p' = none ∧
      current p' = current (if segment.committed then p.applyAll segment.mutations else p) := by
  obtain ⟨opened, hb⟩ : ∃ opened, p.beginSegment = .ok opened := by
    rw [InMemoryHandleProjection.beginSegment, if_neg (by simpa [saved] using h)]
    exact ⟨_, rfl⟩
  obtain ⟨hsame, hs⟩ := begin_ok (P := InMemoryHandleProjection) hb
  have hsaved := (saved_applyAll opened segment.mutations).trans hs
  obtain ⟨undo, hu, -⟩ := Option.map_eq_some_iff.mp hsaved
  simp only [runSegment, hb, ok_bind]
  split
  · obtain ⟨p', hc⟩ : ∃ p', (opened.applyAll segment.mutations).commitSegment = .ok p' := by
      rw [InMemoryHandleProjection.commitSegment, hu]
      exact ⟨_, rfl⟩
    obtain ⟨hcur, hclo⟩ := commit_ok (P := InMemoryHandleProjection) hc
    exact ⟨p', hc, hclo, hcur.trans (current_applyAll hsame _)⟩
  · obtain ⟨p', hr⟩ : ∃ p', (opened.applyAll segment.mutations).rollbackSegment = .ok p' := by
      rw [InMemoryHandleProjection.rollbackSegment, hu]
      exact ⟨_, rfl⟩
    obtain ⟨hbegin, hclo⟩ := rollback_ok (P := InMemoryHandleProjection) hr
    exact ⟨p', hr, hclo, Option.some.inj (hbegin.symm.trans hsaved)⟩

/-- Over any run of segments the bindings become what the committed ones alone make of them. -/
theorem runSegments_eq (bindings : HashMap Bytes AuditedHandleBinding) (segments : List Segment) :
    ∃ p', segments.foldlM runSegment ⟨bindings, none⟩ = .ok p' ∧ p'.segmentUndo = none ∧
      ∀ handle, p'.bindings.lookup handle = (applyAll ⟨bindings, none⟩
        ((segments.filter Segment.committed).flatMap Segment.mutations)).bindings.lookup
          handle := by
  suffices hr : ∀ p q : InMemoryHandleProjection, saved p = none → current p = current q →
      ∃ p', segments.foldlM runSegment p = .ok p' ∧ saved p' = none ∧ current p' = current
        (q.applyAll ((segments.filter Segment.committed).flatMap Segment.mutations)) by
    obtain ⟨p', hok, hsaved, hcur⟩ := hr ⟨bindings, none⟩ ⟨bindings, none⟩ rfl rfl
    exact ⟨p', hok, Option.map_eq_none_iff.mp hsaved, congrFun hcur⟩
  induction segments with
  | nil => exact fun p q hs hc => ⟨p, rfl, hs, hc⟩
  | cons segment segments ih =>
    intro p q hs hc
    obtain ⟨next, hn, hsaved, hcur⟩ := runSegment_eq hs segment
    rw [foldlM_cons, hn]
    cases hcom : segment.committed with
    | false =>
      rw [hcom] at hcur
      rw [filter_cons_of_neg (by simp [hcom])]
      exact ih next q hsaved (hcur.trans hc)
    | true =>
      rw [hcom] at hcur
      rw [filter_cons_of_pos hcom, flatMap_cons, applyAll, foldl_append]
      exact ih next _ hsaved (hcur.trans (current_applyAll hc _))

end InMemoryHandleProjection

end Pigeonpost
