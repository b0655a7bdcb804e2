import Pigeonpost.Verification.Client.Projection
import Pigeonpost.Verification.Entry.Leaf
import Pigeonpost.Verification.Log.Frontier
import Pigeonpost.Verification.Storage.Ownership

/-! # The registry and the client auditors agree

A simulation: whatever the store appends, both auditors accept, and they derive the
store's own bindings and root. -/

namespace Pigeonpost

open Store MerkleFrontier Table

variable {index : ℕ} {mutation : AuditedHandleMutation} {entry : LogEntry}

/-! ## Replay -/

section Replay

variable {A : Type} [AuditAccumulator A] {prim : Primitives}

theorem appendEntries_concat {acc acc' acc'' : A} {entries : List LogEntry}
    (h : appendEntries prim acc index entries = .ok acc')
    (hl : AuditAccumulator.append prim acc' entry (index + entries.length) = .ok acc'') :
    appendEntries prim acc index (entries ++ [entry]) = .ok acc'' := by
  rw [appendEntries_append, h]
  simp [bind, Except.bind, appendEntries, hl]

end Replay

variable {H : Type} [Sha256 H]

/-- The next leaf of a frontier that has seen all leaves before it. -/
theorem appendLeaf_ofLeaves {prim : Primitives} (leaves : List H)
    {bytes : Bytes} (hs : entry.seq.toNat = leaves.length)
    (hl : entry.leafBytes prim = .ok bytes) (hlt : leaves.length < u64Max) :
    appendLeaf prim (ofLeaves leaves) entry leaves.length =
      .ok (ofLeaves (leaves ++ [leafHash bytes])) := by
  rw [appendLeaf, if_neg (by simp [hs]), hl]
  simp [Except.mapError, bind, Except.bind, append, appendHash_ofLeaves hlt, pure, Except.pure]

/-! ## Bindings before a sequence -/

namespace Store

/-- The answer of `binding_before` inside the integer range. -/
def bindingAt (s : Store H) (handle : Bytes) (n : ℕ) : Option HandleHistoryRow :=
  Table.newestBefore (·.handle) (·.seq) handle n s.handleHistory

variable {ctx : RegistryContext} {s s' : Store H} {entry : LogEntry}

/-- Later entries do not change what was bound before them. -/
theorem Appended.bindingAt_of_le (ha : Appended ctx entry s s') (handle : Bytes) {n : ℕ}
    (hn : n ≤ s.entries.length) : s'.bindingAt handle n = s.bindingAt handle n := by
  rw [bindingAt, ha.history]
  apply newestBefore_append_of_le
  intro row hr
  rw [seq_of_mem_historyRows hr, ha.seq]
  exact hn

theorem Appended.bindingAt_succ_of_ne (hinv : LogInvariant ctx s)
    (ha : Appended ctx entry s s') {handle : Bytes}
    (ho : ∀ payload, entry.handleBinding = some payload → payload.handle ≠ handle) :
    s'.bindingAt handle (s.entries.length + 1) = s.bindingAt handle s.entries.length := by
  rw [bindingAt, ha.history]
  apply newestBefore_succ_of_ne hinv.history
  intro row hr
  obtain ⟨payload, hp, rfl⟩ := List.mem_map.mp hr
  exact ho payload (Option.mem_toList.mp hp)

theorem Appended.bindingAt_succ_self (hinv : LogInvariant ctx s) (ha : Appended ctx entry s s')
    {payload : HandlePayload} (hb : entry.handleBinding = some payload) :
    s'.bindingAt payload.handle (s.entries.length + 1) =
      some ⟨s.entries.length, payload.handle, payload.pubkey, payload.subject⟩ := by
  rw [bindingAt, ha.history, historyRows_of_some hb, ha.seq]
  exact newestBefore_succ_self
    (⟨s.entries.length, payload.handle, payload.pubkey, payload.subject⟩ : HandleHistoryRow)
    hinv.history rfl

theorem bindingAt_length (hinv : LogInvariant ctx s) (hb : BindingInvariant s) (handle : Bytes) :
    s.bindingAt handle s.entries.length =
      (s.currentBinding handle).map CurrentBindingRow.toHistory := by
  cases hr : s.currentBinding handle with
  | none =>
    apply newestBefore_eq_none
    rintro old hold rfl
    obtain ⟨row, hm, hhan, -⟩ := hb.current old hold
    exact find_eq_none_iff.mp hr row hm hhan
  | some row =>
    obtain ⟨hm, rfl⟩ := (find_eq_some_iff hb.nodup).mp hr
    obtain ⟨hh, hmax⟩ := (hb.mem_currentBindings_iff hinv row).mp hm
    exact newestBefore_eq_some hh (hinv.bindings row hm) hmax
      fun old hold => hb.eq_of_seq hinv hold hh

end Store

/-! ## The handle auditor -/

def HandleHistoryRow.audited (row : HandleHistoryRow) : AuditedHandleBinding :=
  ⟨hexPairs row.pubkey, row.subject, row.seq⟩

/-- An auditor that has read the first `n` entries of a store. -/
structure AuditsHandles (s : Store H) (n : ℕ) (requested : Bytes)
    (acc : HandleAuditAccumulator H InMemoryHandleProjection) : Prop where
  frontier : acc.frontier = MerkleFrontier.ofLeaves (s.leaves.take n)
  path : acc.requestedPath = requested
  bindings : ∀ handle, acc.projection.bindings.lookup handle =
    (s.bindingAt handle n).map HandleHistoryRow.audited
  target : acc.targetBinding = acc.projection.bindings.lookup requested

section Handles

variable {ctx : RegistryContext} {s s' : Store H}
variable {acc : HandleAuditAccumulator H InMemoryHandleProjection} {entry : LogEntry}
  {prim : Primitives}

/-- The handle keys an operation carries are valid, as the service checks them. -/
def RegistryOp.KeysValid (prim : Primitives) (op : RegistryOp) : Prop :=
  ∀ request, op.request? = some request →
    ∃ key, parseHex32 request.pubkey = some key ∧ prim.verifyingKeyFromBytes key = true

theorem decodeHex32_of_mem_history (hinv : LogInvariant ctx s) (hbind : BindingInvariant s)
    {old : HandleHistoryRow} (hold : old ∈ s.handleHistory) :
    ∃ key, decodeHex32 old.pubkey = some key := by
  obtain ⟨row, hr, hb⟩ := hbind.exists_entry hinv hold
  obtain ⟨entry, bytes, rfl, -, hl⟩ := hinv.rows _ _ hr
  exact (LogEntry.handleBinding_of_validate (LogEntry.validate_of_leafBytes hl) hb).2

def admittedMutation (s : Store H) (request : HandleAppendRequest) : AuditedHandleMutation :=
  ⟨(s.handleEntry request).kind, request.handle, hexPairs request.pubkey, request.subject,
    s.entries.length⟩

variable {request : HandleAppendRequest} {frontier : MerkleFrontier H}

omit [Sha256 H] in
theorem auditedMutation_handleEntry (hv : (s.handleEntry request).validate prim = .ok ())
    {key : Bytes} (hk : parseHex32 request.pubkey = some key)
    (hc : prim.verifyingKeyFromBytes key = true) :
    auditedMutation prim (s.handleEntry request) s.entries.length =
      .ok (some (admittedMutation s request)) := by
  have hb := handleBinding_handleEntry s request
  obtain ⟨hp, text, ht⟩ := LogEntry.handleBinding_of_validate hv hb
  obtain ⟨parsed, hp, -⟩ := hp (by unfold handleEntry; cases request.mode <;> rfl)
  cases hk.symm.trans (decoders_agree ht).1
  obtain ⟨-, -, rfl⟩ := decodeHex32_eq_some ht
  simp only [auditedMutation, hb, hp, hk, hc, if_true]
  rfl

/-- The registry's admission rule implies the client's transition rule. -/
theorem validateHandleTransition_of_admitHandle (hinv : LogInvariant ctx s)
    (hb : BindingInvariant s) (hv : (s.handleEntry request).validate ctx.prim = .ok ())
    (ha : s.admitHandle request = .ok none) :
    validateHandleTransition ((s.bindingAt request.handle s.entries.length).map
      HandleHistoryRow.audited) (admittedMutation s request) = .ok () := by
  rw [bindingAt_length hinv hb]
  rcases admitHandle_eq_none ha with ⟨hm, hn, -⟩ | ⟨hm, row, hr, hs, hp⟩
  · have hk : (s.handleEntry request).kind = .handleClaim := by
      rw [handleEntry, hm]
      rfl
    simp [hn, validateHandleTransition, admittedMutation, hk]
  · have hk : (s.handleEntry request).kind = .handleRotation := by
      rw [handleEntry, hm]
      rfl
    obtain ⟨hmem, -⟩ := (find_eq_some_iff hb.nodup).mp hr
    obtain ⟨_, hold⟩ := decodeHex32_of_mem_history hinv hb (hb.sound row hmem)
    obtain ⟨_, hnew⟩ := (LogEntry.handleBinding_of_validate hv
      (handleBinding_handleEntry s request)).2
    obtain ⟨-, -, rfl⟩ := decodeHex32_eq_some hold
    obtain ⟨-, -, rfl⟩ := decodeHex32_eq_some hnew
    have hkeys : hexPairs row.pubkey ≠ hexPairs request.pubkey :=
      fun heq => hp (decodeLowerHex_inj hold (hnew.trans (congrArg some heq.symm)))
    have hlt := hinv.bindings row hmem
    simp [hr, validateHandleTransition, admittedMutation, hk, HandleHistoryRow.audited,
      CurrentBindingRow.toHistory, hs, hkeys, hlt]

/-- The requested handle is followed as the projection follows it. -/
theorem updateTarget_of_valid (requested : Bytes) {bindings : HashMap Bytes AuditedHandleBinding}
    (hv : validateHandleTransition (bindings.lookup mutation.handle) mutation = .ok ()) :
    updateTarget requested (bindings.lookup requested) mutation =
      .ok ((bindings.insert mutation.handle mutation.binding).lookup requested) := by
  unfold updateTarget
  by_cases hs : mutation.handle = requested
  · subst hs
    simp [hv, bind, Except.bind, pure, Except.pure]
  · rw [if_neg hs, AList.lookup_insert_ne (Ne.symm hs)]

theorem appendHandleAuditedEntry_of_mutation
    (ht : acc.targetBinding = acc.projection.bindings.lookup acc.requestedPath)
    (hl : appendLeaf prim acc.frontier entry index = .ok frontier)
    (hm : auditedMutation prim entry index = .ok (some mutation))
    (hv : validateHandleTransition (acc.projection.bindings.lookup mutation.handle) mutation =
      .ok ()) :
    ∃ acc', appendHandleAuditedEntry prim acc entry index = .ok acc' ∧
      acc'.frontier = frontier ∧ acc'.requestedPath = acc.requestedPath ∧
      acc'.projection.bindings = acc.projection.bindings.insert mutation.handle mutation.binding ∧
      acc'.targetBinding = acc'.projection.bindings.lookup acc.requestedPath := by
  have ha : ∃ p, HandleProjectionStore.apply acc.projection mutation = .ok p ∧
      p.bindings = acc.projection.bindings.insert mutation.handle mutation.binding := by
    simp only [HandleProjectionStore.apply, InMemoryHandleProjection.apply, hv]
    exact ⟨_, rfl, rfl⟩
  obtain ⟨p, ha, hp⟩ := ha
  have hu := updateTarget_of_valid acc.requestedPath hv
  rw [← ht] at hu
  refine ⟨⟨frontier, p, acc.requestedPath, p.bindings.lookup acc.requestedPath⟩, ?_, rfl, rfl, hp,
    rfl⟩
  simp [appendHandleAuditedEntry, hl, hm, hu, ha, bind, Except.bind, pure, Except.pure, hp]

/-- Other entries only move the frontier. -/
theorem appendHandleAuditedEntry_of_none (hn : entry.handleBinding = none)
    (hl : appendLeaf prim acc.frontier entry index = .ok frontier) :
    appendHandleAuditedEntry prim acc entry index = .ok { acc with frontier } := by
  simp only [appendHandleAuditedEntry, hl, auditedMutation, hn]
  rfl

variable {requested : Bytes}

/-- An auditor of a prefix stays one when the log grows. -/
theorem AuditsHandles.append (ha : Appended ctx entry s s') {n : ℕ} (hn : n ≤ s.entries.length)
    (h : AuditsHandles s n requested acc) : AuditsHandles s' n requested acc := by
  refine ⟨?_, h.path, ?_, h.target⟩
  · rw [ha.take_leaves hn]
    exact h.frontier
  · intro handle
    rw [ha.bindingAt_of_le handle hn]
    exact h.bindings handle

/-- The frontier step of both auditors at the end of the log. -/
theorem Store.Appended.appendLeaf_eq (hinv : LogInvariant ctx s) (ha : Appended ctx entry s s') :
    appendLeaf ctx.prim (ofLeaves (s.leaves.take s.entries.length)) entry s.entries.length =
      .ok (ofLeaves (s'.leaves.take (s.entries.length + 1))) := by
  obtain ⟨bytes, hl, he⟩ := ha.entries
  have hlen := hinv.size_le
  have ht : s.leaves.take s.entries.length = s.leaves := List.take_of_length_le (by simp)
  have ht' : s'.leaves.take (s.entries.length + 1) = s.leaves ++ [leafHash bytes] := by
    rw [leaves_concat he]
    exact List.take_of_length_le (by simp)
  have hs := appendLeaf_ofLeaves s.leaves (by simpa using ha.seq) hl
    (by simp only [length_leaves, i64Max, u64Max] at *; omega)
  rw [ht, ht']
  simpa using hs

theorem AuditsHandles.step {op : RegistryOp} (hinv : LogInvariant ctx s)
    (hbind : BindingInvariant s) (hacc : Admitted s op entry) (hk : op.KeysValid ctx.prim)
    (ha : Appended ctx entry s s') (h : AuditsHandles s s.entries.length requested acc) :
    ∃ acc', appendHandleAuditedEntry ctx.prim acc entry s.entries.length = .ok acc' ∧
      AuditsHandles s' (s.entries.length + 1) requested acc' := by
  have hl := ha.appendLeaf_eq hinv
  rw [← h.frontier] at hl
  have ho : entry.handleBinding = none →
      ∃ acc', appendHandleAuditedEntry ctx.prim acc entry s.entries.length = .ok acc' ∧
        AuditsHandles s' (s.entries.length + 1) requested acc' := by
    intro hn
    refine ⟨_, appendHandleAuditedEntry_of_none hn hl, rfl, h.path, ?_, h.target⟩
    intro handle
    rw [ha.bindingAt_succ_of_ne hinv (by simp [hn])]
    exact h.bindings handle
  cases hacc with
  | handle request hr hacc =>
    obtain ⟨bytes, hbytes, -⟩ := ha.entries
    have hv := LogEntry.validate_of_leafBytes hbytes
    obtain ⟨key, hkey, hc⟩ := hk request hr
    have ht := validateHandleTransition_of_admitHandle hinv hbind hv hacc
    rw [← h.bindings] at ht
    obtain ⟨acc', hok, hf, hpath, hb, htar⟩ :=
      appendHandleAuditedEntry_of_mutation (h.path ▸ h.target) hl
        (auditedMutation_handleEntry hv hkey hc) ht
    refine ⟨acc', hok, hf, hpath.trans h.path, ?_, h.path ▸ htar⟩
    intro handle
    rw [hb]
    by_cases hs : handle = (admittedMutation s request).handle
    · subst hs
      rw [AList.lookup_insert]
      have hnew := ha.bindingAt_succ_self hinv (handleBinding_handleEntry s request)
      exact (congrArg (Option.map HandleHistoryRow.audited) hnew).symm
    · rw [AList.lookup_insert_ne hs, ha.bindingAt_succ_of_ne hinv, h.bindings]
      intro payload hp
      rw [handleBinding_handleEntry] at hp
      cases hp
      exact Ne.symm hs
  | compliance => exact ho rfl
  | directory mutation => exact ho (by cases mutation <;> rfl)

end Handles

end Pigeonpost
