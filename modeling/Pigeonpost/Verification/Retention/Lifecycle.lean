import Pigeonpost.Verification.Retention.Encoding
import Pigeonpost.Verification.Shared.SampleSeal

/-! # The life of an inventory

Every operation on an inventory, in any order and with the inventory stored and read back
in between: what one operation may change, and what a whole run keeps. -/

namespace Pigeonpost

open Method DestructionInventory List

variable {inventory : DestructionInventory}
  {startsAtMs expiresAtMs : UInt64} {holdId : Bytes32} {prim : CryptoPrimitives}

/-! ## Operations -/

/-- The inventory is stored and read back. -/
def DestructionInventory.reload (prim : CryptoPrimitives) : InventoryMethod Unit := do
  let inventory : DestructionInventory ← get
  let bytes ← check (inventory.encode prim)
  let decoded ← check (decode prim bytes)
  set decoded

/-- The calls on an inventory. -/
inductive InventoryOp where
  | updatePolicyAndCopies (policy : RetentionPolicy) (copies : List KeyCopy)
  | updateCopies (copies : List KeyCopy)
  | placeHold (startsAtMs expiresAtMs : UInt64) (authorization : LegalHoldAuthorization)
  | renewHold (priorHoldId : Bytes32) (startsAtMs expiresAtMs : UInt64)
    (authorization : LegalHoldAuthorization)
  | releaseHold (holdId : Bytes32) (releasedAtMs : UInt64) (authorization : LegalHoldAuthorization)
  | recordTraceIntegrity (evidence : TraceIntegrityEvidence)
  | beginShred (atMs : UInt64)
  | recordDestroyed (copyId receiptCommitment : Bytes32)
  | recordVerifiedAbsent (copyId evidenceCommitment : Bytes32)
  | completeShred
  | reload

namespace InventoryOp

/-- The call, without its answer. -/
def call (prim : CryptoPrimitives) : InventoryOp → InventoryMethod Unit
  | .updatePolicyAndCopies policy copies => do
    let _ ← updatePolicyAndCopiesMonotonic prim policy copies
  | .updateCopies copies => do let _ ← updateCopiesMonotonic prim copies
  | .placeHold startsAtMs expiresAtMs authorization => do
    let _ ← DestructionInventory.placeHold prim startsAtMs expiresAtMs authorization
  | .renewHold priorHoldId startsAtMs expiresAtMs authorization => do
    let _ ← DestructionInventory.renewHold prim priorHoldId startsAtMs expiresAtMs authorization
  | .releaseHold holdId releasedAtMs authorization =>
    DestructionInventory.releaseHold prim holdId releasedAtMs authorization
  | .recordTraceIntegrity evidence => DestructionInventory.recordTraceIntegrity evidence
  | .beginShred atMs => DestructionInventory.beginShred atMs
  | .recordDestroyed copyId receiptCommitment =>
    DestructionInventory.recordDestroyed copyId receiptCommitment
  | .recordVerifiedAbsent copyId evidenceCommitment =>
    DestructionInventory.recordVerifiedAbsent copyId evidenceCommitment
  | .completeShred => DestructionInventory.completeShred
  | .reload => DestructionInventory.reload prim

/-- The outcome of an operation and the inventory it leaves behind. -/
def step (prim : CryptoPrimitives) (inventory : DestructionInventory) (op : InventoryOp) :
    Except ComplianceError Unit × DestructionInventory :=
  exec (op.call prim) inventory

def run (prim : CryptoPrimitives) (start : DestructionInventory) (ops : List InventoryOp) :
    DestructionInventory :=
  ops.foldl (fun inventory op => (step prim inventory op).2) start

end InventoryOp

/-! ## Failing operations -/

section Atomicity

variable (prim : CryptoPrimitives)

theorem atomic_updatePolicyAndCopiesMonotonic (policy : RetentionPolicy) (copies : List KeyCopy) :
    Atomic (updatePolicyAndCopiesMonotonic prim policy copies) := by
  refine readOnly_get.bind_atomic fun inventory => atomic_guard ?_
  refine (readOnly_check _).bind_atomic fun _ => atomic_guard ?_
  refine (readOnly_check _).bind_atomic fun _ => atomic_guard ?_
  exact (readOnly_check _).bind_atomic fun _ => atomic_set_pure _ _

theorem atomic_updateCopiesMonotonic (copies : List KeyCopy) :
    Atomic (updateCopiesMonotonic prim copies) := by
  refine readOnly_get.bind_atomic fun inventory => ?_
  exact (atomic_updatePolicyAndCopiesMonotonic prim _ _).bind_of_ok
    fun answer inventory => ⟨answer.2, inventory, rfl⟩

theorem atomic_placeHoldInner (startsAtMs expiresAtMs : UInt64)
    (predecessor : Option (Bytes32 × Bytes32)) (authorization : LegalHoldAuthorization) :
    Atomic (placeHoldInner prim startsAtMs expiresAtMs predecessor authorization) := by
  refine readOnly_get.bind_atomic fun inventory => atomic_guard (atomic_guard (atomic_guard ?_))
  refine (readOnly_check _).bind_atomic fun _ => (readOnly_check _).bind_atomic fun _ => ?_
  exact (readOnly_check _).bind_atomic fun _ => atomic_set_pure _ _

theorem atomic_renewHold (priorHoldId : Bytes32) (startsAtMs expiresAtMs : UInt64)
    (authorization : LegalHoldAuthorization) :
    Atomic (renewHold prim priorHoldId startsAtMs expiresAtMs authorization) := by
  refine readOnly_get.bind_atomic fun inventory => ?_
  cases inventory.holds.find? fun hold => hold.holdId = priorHoldId with
  | none => exact atomic_throw _
  | some =>
    exact atomic_guard ((readOnly_check _).bind_atomic fun _ => atomic_placeHoldInner _ _ _ _ _)

theorem atomic_releaseHold (holdId : Bytes32) (releasedAtMs : UInt64)
    (authorization : LegalHoldAuthorization) :
    Atomic (releaseHold prim holdId releasedAtMs authorization) := by
  refine readOnly_get.bind_atomic fun inventory => atomic_guard ?_
  dsimp only
  cases inventory.holds[inventory.holds.findIdx fun hold => hold.holdId = holdId]? with
  | none => exact atomic_throw _
  | some =>
    refine atomic_guard ((readOnly_check _).bind_atomic fun _ => atomic_guard ?_)
    refine (readOnly_check _).bind_atomic fun _ => ?_
    exact (readOnly_check _).bind_atomic fun _ => atomic_set _

theorem atomic_recordTraceIntegrity (evidence : TraceIntegrityEvidence) :
    Atomic (recordTraceIntegrity evidence) := by
  refine readOnly_get.bind_atomic fun inventory => atomic_guard ?_
  cases inventory.traceIntegrity with
  | none => exact atomic_set _
  | some => exact atomic_guard (atomic_set _)

theorem atomic_beginShred (atMs : UInt64) : Atomic (beginShred atMs) := by
  refine readOnly_get.bind_atomic fun inventory => atomic_guard ?_
  exact (readOnly_check _).bind_atomic fun _ => atomic_guard (atomic_guard (atomic_set _))

theorem atomic_recordCopy (state : CopyState) (copyId commitment : Bytes32) :
    Atomic (recordCopy state copyId commitment) := by
  refine readOnly_get.bind_atomic fun inventory => atomic_guard ?_
  dsimp only
  cases inventory.copies[inventory.copies.findIdx fun copy => copy.copyId = copyId]? with
  | none => exact atomic_throw _
  | some => exact atomic_guard (atomic_set _)

theorem atomic_completeShred : Atomic completeShred :=
  readOnly_get.bind_atomic fun _ => atomic_guard (atomic_set _)

theorem atomic_reload : Atomic (reload prim) :=
  readOnly_get.bind_atomic fun _ => (readOnly_check _).bind_atomic fun _ =>
    (readOnly_check _).bind_atomic fun _ => atomic_set _

theorem InventoryOp.atomic_call (op : InventoryOp) : Atomic (op.call prim) := by
  have hd : ∀ {α : Type} {m : InventoryMethod α}, Atomic m →
      Atomic (do let _ ← m : InventoryMethod Unit) :=
    fun hm => hm.bind_of_ok fun _ inventory => ⟨(), inventory, rfl⟩
  cases op with
  | updatePolicyAndCopies policy copies =>
    exact hd (atomic_updatePolicyAndCopiesMonotonic prim policy copies)
  | updateCopies copies => exact hd (atomic_updateCopiesMonotonic prim copies)
  | placeHold => exact hd (atomic_placeHoldInner prim _ _ _ _)
  | renewHold => exact hd (atomic_renewHold prim _ _ _ _)
  | releaseHold => exact atomic_releaseHold prim _ _ _
  | recordTraceIntegrity evidence => exact atomic_recordTraceIntegrity evidence
  | beginShred atMs => exact atomic_beginShred atMs
  | recordDestroyed | recordVerifiedAbsent => exact atomic_recordCopy _ _ _
  | completeShred => exact atomic_completeShred
  | reload => exact atomic_reload prim

end Atomicity

/-! ## What an operation may change -/

/-- What an inventory keeps from one time to any later one. -/
structure Evolves (before after : DestructionInventory) : Prop where
  keyId : after.keyId = before.keyId
  state : before.state.toByte ≤ after.state.toByte
  deadline : before.retentionUntilMs ≤ after.retentionUntilMs
  copies : ∀ copy ∈ before.copies, ∃ copy' ∈ after.copies,
    copy'.copyId = copy.copyId ∧ copy'.kind = copy.kind
  holds : ∀ hold ∈ before.holds, ∃ hold' ∈ after.holds, hold'.termReceipt = hold.termReceipt ∧
    ∀ release, hold.releaseReceipt = some release → hold'.releaseReceipt = some release
  degraded : ∀ evidence, before.traceIntegrity = some evidence → evidence.status = .degraded →
    after.traceIntegrity = some evidence

namespace Evolves

variable {s t u : DestructionInventory}

theorem refl (s : DestructionInventory) : Evolves s s where
  keyId := rfl
  state := UInt8.le_refl _
  deadline := UInt64.le_refl _
  copies copy hm := ⟨copy, hm, rfl, rfl⟩
  holds hold hm := ⟨hold, hm, rfl, fun _ h => h⟩
  degraded _ h _ := h

theorem trans (h₁ : Evolves s t) (h₂ : Evolves t u) : Evolves s u where
  keyId := h₂.keyId.trans h₁.keyId
  state := UInt8.le_trans h₁.state h₂.state
  deadline := UInt64.le_trans h₁.deadline h₂.deadline
  copies copy hm := by
    obtain ⟨copy', hm', hid, hk⟩ := h₁.copies copy hm
    obtain ⟨copy'', hm'', hi', hk'⟩ := h₂.copies copy' hm'
    exact ⟨copy'', hm'', hi'.trans hid, hk'.trans hk⟩
  holds hold hm := by
    obtain ⟨ho', hm', ht, hr⟩ := h₁.holds hold hm
    obtain ⟨ho'', hm'', ht', hr'⟩ := h₂.holds ho' hm'
    exact ⟨ho'', hm'', ht'.trans ht, fun release h => hr' release (hr release h)⟩
  degraded evidence hs hsta := h₂.degraded evidence (h₁.degraded evidence hs hsta) hsta

end Evolves

/-- The moves of the state that one operation can make. -/
inductive StateStep : InventoryState → InventoryState → Prop where
  | stay (state : InventoryState) : StateStep state state
  | begin : StateStep .retained .shredding
  | complete : StateStep .shredding .shredded

/-- What an operation that succeeds does to a valid inventory. -/
structure Moves (prim : CryptoPrimitives) (s t : DestructionInventory) : Prop where
  valid : InventoryValid prim t
  evolves : Evolves s t
  state : StateStep s.state t.state

section Moves

variable {prim : CryptoPrimitives} {s t : DestructionInventory}

theorem moves_updatePolicyAndCopiesMonotonic {policy : RetentionPolicy} {copies : List KeyCopy}
    {answer : Bool × ℕ}
    (h : exec (updatePolicyAndCopiesMonotonic prim policy copies) s = (.ok answer, t)) :
    Moves prim s t := by
  simp only [updatePolicyAndCopiesMonotonic, exec_bind_eq_ok, exec_get_eq_ok, exec_guard_bind_eq_ok,
    exec_check_eq_ok, exec_set_eq_ok, exec_pure_eq_ok] at h
  obtain ⟨_, _, ⟨rfl, rfl⟩, -, _, _, ⟨-, rfl⟩, hk, deadline, _, ⟨-, rfl⟩, hd, _, _,
    ⟨hv, rfl⟩, _, _, rfl, -, rfl⟩ := h
  refine ⟨validate_eq_ok.mp hv, ?_, .stay _⟩
  have ha := Bool.eq_false_iff.mpr (not_or.mp (not_or.mp hk).2).1
  refine { Evolves.refl s with deadline := UInt64.not_lt.mp hd, copies := ?_ }
  intro copy hm
  have hf := any_eq_false.mp ha copy hm
  simp only [Bool.not_eq_eq_eq_not, Bool.not_true, Bool.not_eq_false, any_eq_true, beq_iff_eq] at hf
  obtain ⟨candidate, hc, rfl⟩ := hf
  exact ⟨candidate, hc, rfl, rfl⟩

variable {authorization : LegalHoldAuthorization}

theorem moves_placeHoldInner
    {predecessor : Option (Bytes32 × Bytes32)}
    (h : exec (placeHoldInner prim startsAtMs expiresAtMs predecessor authorization) s =
      (.ok holdId, t)) : Moves prim s t := by
  simp only [placeHoldInner, exec_bind_eq_ok, exec_get_eq_ok, exec_guard_bind_eq_ok,
    exec_check_eq_ok, exec_set_eq_ok, exec_pure_eq_ok] at h
  obtain ⟨_, _, ⟨rfl, rfl⟩, -, -, -, _, _, ⟨-, rfl⟩, _, _, ⟨-, rfl⟩, _, _, ⟨hv, rfl⟩, _, _,
    rfl, -, rfl⟩ := h
  refine ⟨validate_eq_ok.mp hv, ?_, .stay _⟩
  refine { Evolves.refl s with holds := ?_ }
  intro hold hm
  exact ⟨hold, mem_append_left _ hm, rfl, fun _ hr => hr⟩

theorem moves_renewHold {priorHoldId : Bytes32}
    (h : exec (renewHold prim priorHoldId startsAtMs expiresAtMs authorization) s =
      (.ok holdId, t)) : Moves prim s t := by
  simp only [renewHold, exec_bind_eq_ok, exec_get_eq_ok] at h
  obtain ⟨_, _, ⟨rfl, rfl⟩, h⟩ := h
  split at h
  · cases h
  · simp only [exec_guard_bind_eq_ok, exec_bind_eq_ok, exec_check_eq_ok] at h
    obtain ⟨-, _, _, ⟨-, rfl⟩, h⟩ := h
    exact moves_placeHoldInner h

/-- A list with one entry replaced keeps the others. -/
theorem mem_set_or {α : Type} {l : List α} {x y z : α} {index : ℕ} (hg : l[index]? = some x)
    (hm : y ∈ l) : y = x ∨ y ∈ l.set index z := by
  obtain ⟨i, hi, rfl⟩ := mem_iff_getElem.mp hm
  by_cases heq : index = i
  · subst heq
    rw [getElem?_eq_getElem hi] at hg
    exact .inl (Option.some.inj hg)
  · right
    rw [mem_iff_getElem]
    exact ⟨i, by simpa using hi, by rw [getElem_set_ne heq]⟩

theorem moves_releaseHold {releasedAtMs : UInt64}
    (h : exec (releaseHold prim holdId releasedAtMs authorization) s = (.ok (), t)) :
    Moves prim s t := by
  simp only [releaseHold, exec_bind_eq_ok, exec_get_eq_ok, exec_guard_bind_eq_ok] at h
  obtain ⟨_, _, ⟨rfl, rfl⟩, -, h⟩ := h
  split at h
  · cases h
  rename_i hg
  simp only [exec_guard_bind_eq_ok, exec_bind_eq_ok, exec_check_eq_ok, exec_set_eq_ok,
    not_or, Bool.not_eq_true, Option.isSome_eq_false_iff, Option.isNone_iff_eq_none] at h
  obtain ⟨⟨-, hu⟩, _, _, ⟨-, rfl⟩, -, _, _, ⟨-, rfl⟩, _, _, ⟨hv, rfl⟩, rfl⟩ := h
  refine ⟨validate_eq_ok.mp hv, ?_, .stay _⟩
  refine { Evolves.refl s with holds := ?_ }
  intro other hm
  rcases mem_set_or hg hm with rfl | hm'
  · refine ⟨_, List.mem_of_getElem? (List.getElem?_set_self ?_), rfl, ?_⟩
    · exact (List.getElem?_eq_some_iff.mp hg).1
    · intro release hr
      cases hu.symm.trans hr
  · exact ⟨other, hm', rfl, fun _ hr => hr⟩

section

variable (hs : InventoryValid prim s)

include hs

theorem moves_recordTraceIntegrity {evidence : TraceIntegrityEvidence}
    (h : exec (recordTraceIntegrity evidence) s = (.ok (), t)) : Moves prim s t := by
  simp only [recordTraceIntegrity, exec_bind_eq_ok, exec_get_eq_ok, exec_guard_bind_eq_ok,
    not_or] at h
  obtain ⟨_, _, ⟨rfl, rfl⟩, ⟨-, hc⟩, h⟩ := h
  cases hint : s.traceIntegrity with
  | none =>
    simp only [hint, exec_set_eq_ok] at h
    subst h
    refine ⟨{ hs with integrity := by simpa using hc }, ?_, .stay _⟩
    refine { Evolves.refl s with degraded := ?_ }
    intro existing he
    cases hint.symm.trans he
  | some =>
    simp only [hint, exec_guard_bind_eq_ok, exec_set_eq_ok, not_not] at h
    obtain ⟨hsame, rfl⟩ := h
    refine ⟨{ hs with integrity := by simpa [hsame] using hc }, ?_, .stay _⟩
    refine { Evolves.refl s with degraded := ?_ }
    intro recorded hr hd
    cases hint.symm.trans hr
    -- a degraded status absorbs the other one
    simp only [hd, true_or, if_true, Option.some.injEq]
    exact hd ▸ rfl

theorem moves_beginShred {atMs : UInt64}
    (h : exec (beginShred atMs) s = (.ok (), t)) : Moves prim s t := by
  simp only [beginShred, exec_bind_eq_ok, exec_get_eq_ok, exec_guard_bind_eq_ok, exec_check_eq_ok,
    exec_set_eq_ok, not_not] at h
  obtain ⟨_, _, ⟨rfl, rfl⟩, hstate, _, _, ⟨-, rfl⟩, -, -, rfl⟩ := h
  have hl := SameLocations.requestDestruction s.copies
  refine ⟨hs.of_sameLocations hl ?_, ?_, hstate ▸ .begin⟩
  · have hc := hs.copies
    simp only [all_eq_true, forall_mem_map] at hc ⊢
    intro copy hm
    have ha := hc copy hm
    cases hcopy : copy.state <;> simp_all [InventoryState.allowsCopy, KeyCopy.requestDestruction]
  · refine { Evolves.refl s with state := ?_, copies := fun _ => hl.exists_mem }
    simp only [hstate]
    decide

theorem moves_recordCopy {state : CopyState} {copyId commitment : Bytes32}
    (hstate : state = .destroyed ∨ state = .verifiedAbsent)
    (h : exec (recordCopy state copyId commitment) s = (.ok (), t)) : Moves prim s t := by
  simp only [recordCopy, exec_bind_eq_ok, exec_get_eq_ok, exec_guard_bind_eq_ok, not_or,
    not_not] at h
  obtain ⟨_, _, ⟨rfl, rfl⟩, ⟨hshr, hc⟩, h⟩ := h
  split at h
  · cases h
  rename_i copy hg
  simp only [exec_guard_bind_eq_ok, exec_set_eq_ok] at h
  obtain ⟨-, rfl⟩ := h
  have hl : SameLocations s.copies (s.copies.set (s.copies.findIdx fun copy => copy.copyId
      = copyId) { copy with state, destructionEvidence := some commitment }) :=
    SameLocations.set hg ⟨rfl, rfl⟩
  refine ⟨hs.of_sameLocations hl ?_,
    { Evolves.refl s with copies := fun _ => hl.exists_mem }, .stay _⟩
  have hcop := hs.copies
  simp only [all_eq_true] at hcop ⊢
  intro other hm
  rcases mem_or_eq_of_mem_set hm with hold | rfl
  · exact hcop other hold
  · rw [hshr]
    rcases hstate with rfl | rfl <;> simp [InventoryState.allowsCopy, hc]

theorem moves_completeShred (h : exec completeShred s = (.ok (), t)) : Moves prim s t := by
  simp only [completeShred, exec_bind_eq_ok, exec_get_eq_ok, exec_guard_bind_eq_ok, exec_set_eq_ok,
    not_or, not_not] at h
  obtain ⟨_, _, ⟨rfl, rfl⟩, ⟨hstate, hd⟩, rfl⟩ := h
  refine ⟨hs.of_sameLocations (SameLocations.refl s.copies) ?_, ?_, hstate ▸ .complete⟩
  · have hc := hs.copies
    simp only [all_eq_true, any_eq_true, not_exists, not_and] at hc hd ⊢
    intro copy hm
    have ha := hc copy hm
    cases hcase : copy.state <;> simp_all [InventoryState.allowsCopy]
  · refine { Evolves.refl s with state := ?_ }
    simp only [hstate]
    decide

end

/-- What is read back is the inventory that was stored. -/
theorem eq_of_exec_reload (h : exec (reload prim) s = (.ok (), t)) : t = s := by
  simp only [reload, exec_bind_eq_ok, exec_get_eq_ok, exec_check_eq_ok, exec_set_eq_ok] at h
  obtain ⟨_, _, ⟨rfl, rfl⟩, bytes, _, ⟨henc, rfl⟩, decoded, _, ⟨hd, rfl⟩, rfl⟩ := h
  have hb := decode_encode henc
  by_cases hr : s.Readable
  · exact Except.ok.inj (hd.symm.trans (hb.1 hr))
  · obtain ⟨e, he⟩ := hb.2 hr
    cases he.symm.trans hd

theorem InventoryOp.moves_call {op : InventoryOp} (hs : InventoryValid prim s)
    (h : exec (op.call prim) s = (.ok (), t)) : Moves prim s t := by
  have hd : ∀ {α : Type} {m : InventoryMethod α},
      exec (do let _ ← m : InventoryMethod Unit) s = (.ok (), t) → ∃ a, exec m s = (.ok a, t) := by
    intro α m hm
    obtain ⟨a, u, hf, hr⟩ := exec_bind_eq_ok.mp hm
    obtain ⟨-, rfl⟩ := exec_pure_eq_ok.mp hr
    exact ⟨a, hf⟩
  cases op with
  | updatePolicyAndCopies =>
    obtain ⟨answer, h⟩ := hd h
    exact moves_updatePolicyAndCopiesMonotonic h
  | updateCopies =>
    obtain ⟨added, ha⟩ := hd h
    simp only [updateCopiesMonotonic, exec_bind_eq_ok, exec_get_eq_ok, exec_pure_eq_ok] at ha
    obtain ⟨_, _, ⟨rfl, rfl⟩, answer, _, hu, -, rfl⟩ := ha
    exact moves_updatePolicyAndCopiesMonotonic hu
  | placeHold =>
    obtain ⟨holdId, h⟩ := hd h
    exact moves_placeHoldInner h
  | renewHold =>
    obtain ⟨holdId, h⟩ := hd h
    exact moves_renewHold h
  | releaseHold => exact moves_releaseHold h
  | recordTraceIntegrity => exact moves_recordTraceIntegrity hs h
  | beginShred => exact moves_beginShred hs h
  | recordDestroyed => exact moves_recordCopy hs (.inl rfl) h
  | recordVerifiedAbsent => exact moves_recordCopy hs (.inr rfl) h
  | completeShred => exact moves_completeShred hs h
  | reload =>
    obtain rfl := eq_of_exec_reload h
    exact ⟨hs, Evolves.refl t, .stay _⟩

theorem InventoryOp.step_cases (op : InventoryOp) (s : DestructionInventory) :
    exec (op.call prim) s = (.ok (), (step prim s op).2) ∨ (step prim s op).2 = s := by
  cases he : (step prim s op).1 with
  | ok => exact .inl (Prod.ext he rfl)
  | error e => exact .inr (atomic_call prim op s e he)

/-- Whatever its outcome, an operation moves a valid inventory to a valid one. -/
theorem InventoryOp.moves_step (hs : InventoryValid prim s) (op : InventoryOp) :
    Moves prim s (step prim s op).2 := by
  obtain he | he := step_cases op s
  · exact moves_call hs he
  · rw [he]
    exact ⟨hs, Evolves.refl s, .stay _⟩

end Moves

/-! ## Storing succeeds -/

section Reload

variable {prim : CryptoPrimitives}

theorem LegalHoldReceipt.exists_encode {receipt : LegalHoldReceipt}
    (h : receipt.validate prim = .ok ()) : ∃ bytes, receipt.encode = .ok bytes := by
  simp only [validate, ok_iff, not_or, not_not] at h
  have hk : receipt.keyId.validate = .ok () := h.1.1
  exact ⟨_, by simp only [encode, ComplianceKeyId.encode, hk]; rfl⟩

theorem exists_encodeHolds {holds : List LegalHold} (h : ∀ hold ∈ holds, hold.Valid prim) :
    ∃ bytes, encodeHolds holds = .ok bytes := by
  induction holds with
  | nil => exact ⟨[], rfl⟩
  | cons hold _ ih =>
    obtain ⟨others, ho⟩ := ih fun x hx => h x (mem_cons_of_mem _ hx)
    obtain ⟨ht, hrel⟩ := h hold mem_cons_self
    obtain ⟨term, ht⟩ := LegalHoldReceipt.exists_encode ht
    cases hc : hold.releaseReceipt with
    | none => exact ⟨_, by simp only [encodeHolds, encodeHold, ht, ho, hc]; rfl⟩
    | some release =>
      obtain ⟨released, hr⟩ := LegalHoldReceipt.exists_encode (hrel release hc)
      exact ⟨_, by simp only [encodeHolds, encodeHold, ht, ho, hc, hr]; rfl⟩

theorem InventoryValid.exists_encode
    (h : InventoryValid prim inventory) : ∃ bytes, inventory.encode prim = .ok bytes := by
  obtain ⟨holds, hh⟩ := exists_encodeHolds h.holds_valid
  exact ⟨_, by simp only [encode, validate_eq_ok.mpr h, ComplianceKeyId.encode, h.keyId, hh]; rfl⟩

/-- Where no hash is zero, an inventory can always be stored and read back. -/
theorem InventoryValid.exec_reload
    (h : InventoryValid prim inventory) (hsha : ∀ bytes, prim.sha256 bytes ≠ zero32) :
    exec (reload prim) inventory = (.ok (), inventory) := by
  obtain ⟨bytes, he⟩ := h.exists_encode
  have hd := (decode_encode he).1 (h.readable hsha)
  simp only [reload, exec_bind_eq_ok, exec_get_eq_ok, exec_check_eq_ok, exec_set_eq_ok]
  exact ⟨_, _, ⟨rfl, rfl⟩, bytes, _, ⟨he, rfl⟩, inventory, _, ⟨hd, rfl⟩, rfl⟩

end Reload

/-! ## Runs -/

/-- The ways to come by an inventory. -/
def Constructed (prim : CryptoPrimitives) (inventory : DestructionInventory) : Prop :=
  (∃ keyId createdAtMs policy copies,
    DestructionInventory.new prim keyId createdAtMs policy copies = .ok inventory)
  ∨ ∃ bytes, decode prim bytes = .ok inventory

theorem Constructed.valid (h : Constructed prim inventory) : InventoryValid prim inventory := by
  rcases h with ⟨keyId, createdAtMs, policy, copies, h⟩ | ⟨bytes, h⟩
  · simp only [new, ok_iff] at h
    obtain ⟨_, -, _, hv, rfl⟩ := h
    exact validate_eq_ok.mp hv
  · simp only [decode, ok_iff] at h
    obtain ⟨-, -, read, -, -, _, hv, rfl⟩ := h
    exact validate_eq_ok.mp hv

/-- Holds end early only by a release, and a shredded key is gone. -/
structure InventoryLaws (prim : CryptoPrimitives) (inventory : DestructionInventory) : Prop where
  valid : inventory.validate prim = .ok ()
  released : ∀ hold ∈ inventory.holds, ∀ atMs, hold.startsAtMs ≤ atMs → atMs ≤ hold.expiresAtMs →
    hold.activeAt atMs = false → ∃ release, hold.releaseReceipt = some release ∧
      release.action = .release ∧ release.holdId = hold.holdId ∧ release.actedAtMs ≤ atMs ∧
      release.validate prim = .ok () ∧ release.TwoApprovers prim
  shredded : inventory.state = .shredded → ∀ copy ∈ inventory.copies,
    (copy.state = .destroyed ∨ copy.state = .verifiedAbsent) ∧
      ∃ evidence, copy.destructionEvidence = some evidence ∧ evidence ≠ zero32

theorem InventoryValid.laws (h : InventoryValid prim inventory) : InventoryLaws prim inventory where
  valid := validate_eq_ok.mpr h
  released := by
    intro hold hm atMs hstart he hina
    obtain ⟨_, _, hc⟩ := h.hold_checked hm
    cases hr : hold.releaseReceipt with
    | none => simp [LegalHold.activeAt, LegalHold.releasedAtMs, hr, hstart, he] at hina
    | some release =>
      obtain ⟨hv, hact, -, hid, -⟩ := hc.release release hr
      have hacted : release.actedAtMs ≤ atMs := by
        simpa [LegalHold.activeAt, LegalHold.releasedAtMs, hr, hstart, he] using hina
      exact ⟨release, rfl, hact, hid, hacted, hv, LegalHoldReceipt.twoApprovers hv⟩
  shredded := by
    intro hstate copy hm
    have ha := all_eq_true.mp h.copies copy hm
    cases hcopy : copy.state <;> cases hevi : copy.destructionEvidence <;>
      simp_all [InventoryState.allowsCopy]

/-- A failure changes nothing, and a success has its grounds. -/
structure StepLaws (prim : CryptoPrimitives) (inventory : DestructionInventory)
    (op : InventoryOp) : Prop where
  failure : ∀ e, (op.step prim inventory).1 = .error e → (op.step prim inventory).2 = inventory
  state : StateStep inventory.state (op.step prim inventory).2.state
  beginShred : ∀ atMs, op = .beginShred atMs → (op.step prim inventory).1 = .ok () →
    (∃ epochEndMs, complianceEpochEndMs inventory.keyId = .ok epochEndMs ∧
      epochEndMs + (inventory.retentionPolicy.days inventory.keyId.jurisdiction).toNat * dayMs
        ≤ atMs.toNat) ∧
    ∀ hold ∈ inventory.holds, hold.activeAt atMs = false
  reload : op = .reload → (op.step prim inventory).2 = inventory ∧
    ((∀ bytes, prim.sha256 bytes ≠ zero32) → (op.step prim inventory).1 = .ok ())

section Runs

variable {prim : CryptoPrimitives} {inventory : DestructionInventory}

theorem InventoryValid.beginShred_time (h : InventoryValid prim inventory) {atMs : UInt64}
    {after : DestructionInventory} (he : exec (beginShred atMs) inventory = (.ok (), after)) :
    (∃ epochEndMs, complianceEpochEndMs inventory.keyId = .ok epochEndMs ∧
      epochEndMs + (inventory.retentionPolicy.days inventory.keyId.jurisdiction).toNat * dayMs
        ≤ atMs.toNat) ∧
    ∀ hold ∈ inventory.holds, hold.activeAt atMs = false := by
  simp only [beginShred, exec_bind_eq_ok, exec_get_eq_ok, exec_guard_bind_eq_ok, exec_check_eq_ok,
    not_or, UInt64.not_lt] at he
  obtain ⟨_, _, ⟨rfl, rfl⟩, -, _, _, ⟨-, rfl⟩, ⟨-, hd⟩, hh, -⟩ := he
  obtain ⟨epochEndMs, hepoch, heq⟩ := RetentionPolicy.retentionUntil_eq_ok h.retention
  refine ⟨⟨epochEndMs, hepoch, heq ▸ UInt64.le_iff_toNat_le.mp hd⟩, ?_⟩
  simpa using hh

theorem InventoryValid.stepLaws (h : InventoryValid prim inventory) (op : InventoryOp) :
    StepLaws prim inventory op where
  failure e herror := InventoryOp.atomic_call prim op inventory e herror
  state := (InventoryOp.moves_step h op).state
  beginShred atMs hop hok := by
    subst hop
    exact h.beginShred_time (Prod.ext hok rfl)
  reload hop := by
    subst hop
    refine ⟨?_, fun hsha => congrArg Prod.fst (h.exec_reload hsha)⟩
    exact (InventoryOp.step_cases .reload inventory).elim eq_of_exec_reload id

theorem InventoryOp.run_append (start : DestructionInventory) (ops later : List InventoryOp) :
    run prim start (ops ++ later) = run prim (run prim start ops) later :=
  foldl_append

theorem InventoryOp.valid_run (h : InventoryValid prim inventory) (ops : List InventoryOp) :
    InventoryValid prim (run prim inventory ops) := by
  induction ops generalizing inventory with
  | nil => exact h
  | cons op _ ih => exact ih (moves_step h op).valid

theorem InventoryOp.evolves_run (h : InventoryValid prim inventory) (ops : List InventoryOp) :
    Evolves inventory (run prim inventory ops) := by
  induction ops generalizing inventory with
  | nil => exact Evolves.refl inventory
  | cons op _ ih =>
    have hm := moves_step h op
    exact hm.evolves.trans (ih hm.valid)

/-- At every point of every run the inventory is valid, the next operation keeps the laws of
operations, and what the inventory holds is kept at every later point. -/
theorem inventory_run {start : DestructionInventory} (hstart : Constructed prim start)
    (ops later : List InventoryOp) (op : InventoryOp) :
    InventoryLaws prim (InventoryOp.run prim start ops) ∧
      StepLaws prim (InventoryOp.run prim start ops) op ∧
      Evolves (InventoryOp.run prim start ops) (InventoryOp.run prim start (ops ++ later)) := by
  have hv := InventoryOp.valid_run hstart.valid ops
  refine ⟨hv.laws, hv.stepLaws op, ?_⟩
  rw [InventoryOp.run_append]
  exact InventoryOp.evolves_run hv later

end Runs

/-! ## A trace key that is shredded -/

def sampleRetentionPolicy : RetentionPolicy where
  version := 1
  usDays := 30
  euDays := 0
  trDays := 365
  testDays := 1
  counselApprovalCommitment := Vector.replicate 32 1

def sampleCopies : List KeyCopy :=
  requiredCopyKinds.map fun kind =>
    { copyId := Vector.replicate 32 kind.toByte, kind, state := .present,
      destructionEvidence := none }

def sampleInventory : DestructionInventory where
  keyId := sampleTraceKeyId
  retentionPolicy := sampleRetentionPolicy
  createdAtMs := 86400000
  retentionUntilMs := 259200000
  state := .retained
  traceIntegrity := none
  copies := sampleCopies
  holds := []

def sampleIntegrity (status : TraceIntegrityStatus) : InventoryOp :=
  .recordTraceIntegrity ⟨status, Vector.replicate 32 8⟩

def sampleAuthorization (atMs : UInt64) (selector : Bytes) : LegalHoldAuthorization :=
  let salt := Vector.replicate 32 3
  let requester := disclosureCommitment samplePrimitives (ascii "requester") salt
    legalProcessRequester
  let selectors := disclosureCommitment samplePrimitives (ascii "selectors") salt selector
  let requestId := (disclosureRequestId samplePrimitives sampleTraceKeyId atMs (atMs + 1) salt
    requester selectors).toOption.getD zero32
  let approval key := ⟨holdApproverKeyId samplePrimitives key, key, atMs,
    sampleSign key (disclosureApprovalPreimage requestId atMs)⟩
  ⟨requestId, atMs, atMs + 1, salt, requester, selectors, salt, salt, salt,
    approval (Vector.replicate 32 5), approval (Vector.replicate 32 6)⟩

/-- The trace turns out degraded, and a hold is renewed past the deadline. The shredding is asked
for before the release of the hold and after it. -/
def sampleShredding : List InventoryOp :=
  [sampleIntegrity .verified, sampleIntegrity .degraded,
    .placeHold 86400001 200000000
      (sampleAuthorization 86400001 (ascii "place" ++ beBytes 8 200000000)),
    .renewHold (Vector.replicate 32 116) 86400002 300000000
      (sampleAuthorization 86400002 (ascii "renew" ++ replicate 32 116 ++ beBytes 8 300000000)),
    .beginShred 259200000,
    .releaseHold (Vector.replicate 32 43) 259200000
      (sampleAuthorization 259200000 (ascii "release" ++ replicate 32 43)),
    sampleIntegrity .verified, .beginShred 259200000] ++
    (sampleCopies.map fun copy => .recordDestroyed copy.copyId (Vector.replicate 32 9))
    ++ [.completeShred]

theorem sampleInventory_constructed : Constructed samplePrimitives sampleInventory := by
  refine .inl ⟨sampleTraceKeyId, 86400000, sampleRetentionPolicy, sampleCopies, ?_⟩
  have hc : canonicalizeCopies sampleCopies = sampleCopies := by decide +kernel
  have hd : sampleRetentionPolicy.retentionUntil sampleTraceKeyId = .ok 259200000 := by
    decide +kernel
  have hv : sampleInventory.validate samplePrimitives = .ok () := by decide +kernel
  simp only [new, ok_iff, hc]
  exact ⟨_, hd, (), hv, rfl⟩

theorem inventory_run_shredded :
    let shredded := InventoryOp.run samplePrimitives sampleInventory sampleShredding
    (shredded.state = .shredded ∧
        shredded.traceIntegrity.map TraceIntegrityEvidence.status = some .degraded ∧
        (shredded.holds.map fun hold => (hold.termReceipt.action, hold.releasedAtMs)) =
          [(.place, none), (.renew, some 259200000)]) ∧
      InventoryLaws samplePrimitives shredded ∧ StepLaws samplePrimitives shredded .reload ∧
      Evolves shredded
        (InventoryOp.run samplePrimitives sampleInventory (sampleShredding ++ [.reload])) :=
  ⟨by decide +kernel, inventory_run sampleInventory_constructed sampleShredding [.reload] .reload⟩

end Pigeonpost
