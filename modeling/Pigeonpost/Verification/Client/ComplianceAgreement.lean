import Pigeonpost.Verification.Client.Agreement
import Pigeonpost.Verification.Disclosure.Leaf
import Pigeonpost.Verification.Shared.SymbolicRegistry
import Mathlib.Data.Finset.Card

/-! # The registry and the compliance auditor agree

The key table of the store and the key map of the auditor hold the same states, so
the two transition rules accept the same publications. -/

namespace Pigeonpost

open Store List Table

/-! ## Key states -/

/-- What both sides know of a published key. -/
structure KeyState where
  seq : ℕ
  publicKey : Bytes
  notBeforeMs : ℕ
  notAfterMs : ℕ
  status : UInt8

def ComplianceKeyRow.state (row : ComplianceKeyRow) : KeyState :=
  ⟨row.seq, row.publicKey, row.notBeforeMs, row.notAfterMs, row.status⟩

def AuditedComplianceKey.state (key : AuditedComplianceKey) : KeyState :=
  ⟨key.logIndex, key.publicKey, key.publication.notBeforeMs.toNat,
    key.publication.notAfterMs.toNat, key.publication.status.tag⟩

variable {H : Type} [Sha256 H] {entry : LogEntry}

namespace Store

/-- The newest state of a key below a sequence. -/
def keyAt (s : Store H) (encoded : Bytes) (n : ℕ) : Option ComplianceKeyRow :=
  Table.newestBefore (·.keyId) (·.seq) encoded n s.complianceKeys

def KeyRowsBounded (s : Store H) : Prop := ∀ row ∈ s.complianceKeys, row.seq < s.entries.length

end Store

def publishedKeys (entries : List (EntryRow H)) : Finset ComplianceKeyId :=
  (entries.filterMap fun row => row.entry.compliancePublication.map (·.keyId)).toFinset

theorem seq_of_mem_complianceRows {row : ComplianceKeyRow}
    (h : row ∈ complianceRows entry) : row.seq = entry.seq.toNat := by
  unfold complianceRows at h
  split at h
  · simp at h
  split at h
  · rw [mem_singleton.mp h]
    rfl
  · simp at h

variable {prim : Primitives} {op : RegistryOp}

theorem publication_of_validate {publication : ComplianceKeyPublish}
    (h : entry.validate prim = .ok ()) (hp : entry.compliancePublication = some publication) :
    ∃ encoded key, publication.keyId.encode = .ok encoded ∧
      decodeHex publication.publicKey 32 = some key ∧
      complianceRows entry = [complianceRow entry publication encoded key] ∧
      ∀ index, auditedComplianceKey publication index = .ok ⟨publication, key, index⟩ := by
  cases entry with
  | complianceKeyPublish v =>
    cases hp
    unfold LogEntry.validate at h
    split at h
    · simp at h
    obtain ⟨hid, ⟨key, hk, hz⟩, hepoch⟩ := validateCompliance_eq_ok h
    obtain ⟨hparse, hd⟩ := decoders_agree hk
    obtain ⟨encoded, he⟩ : ∃ encoded, v.payload.keyId.encode = .ok encoded := by
      rw [ComplianceKeyId.encode, hid]
      exact ⟨_, rfl⟩
    refine ⟨encoded, key, he, hd, ?_, ?_⟩
    · simp [complianceRows, LogEntry.compliancePublication, he, hd]
    · intro index
      simp only [auditedComplianceKey, he, hparse, Except.mapError, bind, Except.bind]
      rw [if_neg (by simpa [hepoch] using hz)]
      rfl
  | _ => simp [LogEntry.compliancePublication] at hp

section Keys

variable {ctx : RegistryContext} {s s' : Store H} {entry : LogEntry}
variable {publication : ComplianceKeyPublish} {acc : ComplianceAuditAccumulator H}
  {encoded key : Bytes}

omit [Sha256 H] in
/-- A publication that leads to a new leaf starts a key or advances its status. -/
theorem validateComplianceTransition_eq_none (hp : entry.compliancePublication = some publication)
    (he : publication.keyId.encode = .ok encoded)
    (hk : decodeHex publication.publicKey 32 = some key) (hr : s.KeyRowsBounded)
    (h : s.validateComplianceTransition entry = .ok none) :
    s.keyAt encoded s.entries.length = none ∧ publication.status = .active ∨
    ∃ previous, s.keyAt encoded s.entries.length = some previous ∧ previous.publicKey = key ∧
      previous.notBeforeMs = publication.notBeforeMs.toNat ∧
      previous.notAfterMs = publication.notAfterMs.toNat ∧
      ¬publication.status.tag ≤ previous.status ∧
      (publication.status = .retired ∨ publication.status = .revoked) := by
  rw [keyAt, newestBefore, filter_of_lt hr]
  simp only [Store.validateComplianceTransition, hp, he, Except.mapError, bind, Except.bind] at h
  cases hn : (s.complianceKeys.filter fun row => row.keyId = encoded).argmax (·.seq) with
  | none =>
    simp only [hn] at h
    split at h
    · simp [throw, throwThe, MonadExceptOf.throw] at h
    · next hact => exact .inl ⟨rfl, not_not.mp hact⟩
  | some previous =>
    simp only [hn, hk] at h
    split at h
    · simp [throw, throwThe, MonadExceptOf.throw] at h
    rename_i hs
    push Not at hs
    split at h
    · simp [pure, Except.pure] at h
    split at h
    · simp [throw, throwThe, MonadExceptOf.throw] at h
    · rename_i ha
      push Not at ha
      exact .inr ⟨previous, rfl, hs.1, hs.2.1, hs.2.2, ha⟩

/-- The audit of the first `n` entries agrees with the store. -/
structure AuditsKeys (s : Store H) (n : ℕ) (acc : ComplianceAuditAccumulator H) : Prop where
  frontier : acc.frontier = MerkleFrontier.ofLeaves (s.leaves.take n)
  states : ∀ keyId encoded, keyId.encode = .ok encoded →
    (acc.keys.lookup keyId).map AuditedComplianceKey.state =
      (s.keyAt encoded n).map ComplianceKeyRow.state
  published : ∀ keyId, keyId ∈ acc.keys ↔ keyId ∈ publishedKeys (s.entries.take n)

theorem AuditsKeys.append (ha : Appended ctx entry s s') {n : ℕ} (hn : n ≤ s.entries.length)
    (h : AuditsKeys s n acc) : AuditsKeys s' n acc := by
  obtain ⟨bytes, -, he⟩ := ha.entries
  refine ⟨?_, ?_, ?_⟩
  · rw [ha.take_leaves hn]
    exact h.frontier
  · intro keyId encoded henc
    rw [h.states keyId encoded henc, keyAt, keyAt, ha.compliance, newestBefore_append_of_le]
    intro row hr
    rw [seq_of_mem_complianceRows hr, ha.seq]
    exact hn
  · intro keyId
    rw [he, take_append_of_le_length hn]
    exact h.published keyId

theorem Store.Appended.keyRowsBounded (ha : Appended ctx entry s s')
    (h : s.KeyRowsBounded) : s'.KeyRowsBounded := by
  obtain ⟨bytes, -, he⟩ := ha.entries
  intro row hr
  rw [ha.compliance, mem_append] at hr
  rw [he, length_append]
  rcases hr with hold | hn
  · exact Nat.lt_succ_of_lt (h row hold)
  · rw [seq_of_mem_complianceRows hn, ha.seq]
    exact Nat.lt_succ_self _

omit [Sha256 H] in
/-- The transition rule of the client on the states the registry compared. -/
theorem validateComplianceTransition_of_admitted
    {previous : Option AuditedComplianceKey}
    (hpub : entry.compliancePublication = some publication)
    (he : publication.keyId.encode = .ok encoded)
    (hk : decodeHex publication.publicKey 32 = some key) (hr : s.KeyRowsBounded)
    (ha : s.validateComplianceTransition entry = .ok none)
    (hp : previous.map AuditedComplianceKey.state =
    (s.keyAt encoded s.entries.length).map ComplianceKeyRow.state) :
    Pigeonpost.validateComplianceTransition previous ⟨publication, key, s.entries.length⟩ =
      .ok () := by
  rcases validateComplianceTransition_eq_none hpub he hk hr ha with
    ⟨hn, hact⟩ | ⟨row, hrow, hpublic, hb, hafter, hs, hnext⟩
  · rw [hn, Option.map_none, Option.map_eq_none_iff] at hp
    simp [hp, Pigeonpost.validateComplianceTransition, hact]
  · rw [hrow, Option.map_some, Option.map_eq_some_iff] at hp
    obtain ⟨audited, rfl, hstate⟩ := hp
    obtain ⟨hseq, hpk, hnb, hna, hst⟩ := KeyState.mk.inj hstate
    have hlt : row.seq < s.entries.length := hr row (mem_filter.mp (argmax_mem hrow)).1
    rw [Pigeonpost.validateComplianceTransition, if_neg]
    push Not
    refine ⟨hseq ▸ hlt, hpublic.symm.trans hpk.symm, ?_, ?_, hst ▸ hs, hnext⟩
    · exact UInt64.toNat_inj.mp (hb.symm.trans hnb.symm)
    · exact UInt64.toNat_inj.mp (hafter.symm.trans hna.symm)

omit [Sha256 H] in
theorem publishedKeys_concat (entries : List (EntryRow H)) (entry : LogEntry) (leaf : H) :
    publishedKeys (entries ++ [entryRow entry leaf]) = publishedKeys entries ∪
        (entry.compliancePublication.map (·.keyId)).toList.toFinset := by
  rw [publishedKeys, publishedKeys]
  cases hp : entry.compliancePublication <;> simp [entryRow, hp]

theorem length_keys_lt {keys : HashMap ComplianceKeyId AuditedComplianceKey}
    {published : Finset ComplianceKeyId} {keyId : ComplianceKeyId}
    (hk : ∀ id, id ∈ keys ↔ id ∈ published) (hn : keyId ∉ keys)
    (hc : (published ∪ {keyId}).card ≤ maxComplianceKeys) :
    keys.keys.length < maxComplianceKeys := by
  have hs : keys.keys.toFinset = published := by
    ext id
    rw [mem_toFinset, ← AList.mem_keys, hk]
  have hl : keys.keys.length = published.card := by
    rw [← hs, toFinset_card_of_nodup keys.keys_nodup]
  have hf : keyId ∉ published := fun h => hn ((hk keyId).mpr h)
  rw [Finset.union_comm, ← Finset.insert_eq, Finset.card_insert_of_notMem hf] at hc
  omega

variable {frontier : MerkleFrontier H} {index : ℕ}

/-- Other entries only move the frontier. -/
theorem appendAuditedEntry_of_none (hn : entry.compliancePublication = none)
    (hl : appendLeaf prim acc.frontier entry index = .ok frontier) :
    appendAuditedEntry prim acc entry index = .ok { acc with frontier } := by
  simp only [appendAuditedEntry, hl, hn]
  rfl

theorem appendAuditedEntry_of_publication {audited : AuditedComplianceKey}
    (hp : entry.compliancePublication = some publication)
    (hl : appendLeaf prim acc.frontier entry index = .ok frontier)
    (ha : auditedComplianceKey publication index = .ok audited)
    (hv : Pigeonpost.validateComplianceTransition (acc.keys.lookup publication.keyId) audited =
      .ok ())
    (hr : publication.keyId ∉ acc.keys → acc.keys.keys.length < maxComplianceKeys) :
    appendAuditedEntry prim acc entry index =
      .ok ⟨frontier, acc.keys.insert publication.keyId audited⟩ := by
  have hb : ¬((acc.keys.lookup publication.keyId).isNone = true ∧
      acc.keys.keys.length ≥ maxComplianceKeys) := by
    rintro ⟨hn, hf⟩
    rw [Option.isNone_iff_eq_none, AList.lookup_eq_none] at hn
    exact Nat.not_lt.mpr hf (hr hn)
  simp only [appendAuditedEntry, hl, hp, ha, hv, bind, Except.bind]
  rw [if_neg hb]
  rfl

theorem Store.Appended.take_entries (ha : Appended ctx entry s s') :
    s'.entries.take (s.entries.length + 1) = s'.entries := by
  obtain ⟨bytes, -, he⟩ := ha.entries
  exact take_of_length_le (by simp [he])

section

variable (hin : LogInvariant ctx s) (hr : s.KeyRowsBounded)

include hin hr

theorem AuditsKeys.other (ha : Appended ctx entry s s') (h : AuditsKeys s s.entries.length acc)
    (hn : entry.compliancePublication = none) :
    ∃ acc', appendAuditedEntry ctx.prim acc entry s.entries.length = .ok acc' ∧
      AuditsKeys s' (s.entries.length + 1) acc' := by
  have hl := ha.appendLeaf_eq hin
  rw [← h.frontier] at hl
  obtain ⟨bytes, -, he⟩ := ha.entries
  refine ⟨_, appendAuditedEntry_of_none hn hl, rfl, ?_, ?_⟩
  · intro keyId encoded henc
    rw [h.states keyId encoded henc, keyAt, keyAt, ha.compliance, newestBefore_succ_of_ne hr]
    simp [complianceRows, hn]
  · intro keyId
    rw [ha.take_entries, he, publishedKeys_concat, hn]
    simpa using h.published keyId

/-- An admitted publication is accepted and leaves both sides in the same state. -/
theorem AuditsKeys.publish (ha : Appended ctx entry s s')
    (hc : (publishedKeys s'.entries).card ≤ maxComplianceKeys)
    (h : AuditsKeys s s.entries.length acc) (hp : entry.compliancePublication = some publication)
    (hacc : s.validateComplianceTransition entry = .ok none) :
    ∃ acc', appendAuditedEntry ctx.prim acc entry s.entries.length = .ok acc' ∧
      AuditsKeys s' (s.entries.length + 1) acc' := by
  have hl := ha.appendLeaf_eq hin
  rw [← h.frontier] at hl
  obtain ⟨bytes, hb, hent⟩ := ha.entries
  obtain ⟨encoded, key, he, hk, hnew, haud⟩ :=
    publication_of_validate (LogEntry.validate_of_leafBytes hb) hp
  have hpub : ∀ keyId, keyId ∈ acc.keys ↔ keyId ∈ publishedKeys s.entries := by
    simpa using h.published
  have hids : publishedKeys s'.entries = publishedKeys s.entries ∪ {publication.keyId} := by
    rw [hent, publishedKeys_concat, hp]
    rfl
  have ht := validateComplianceTransition_of_admitted hp he hk hr hacc (h.states _ _ he)
  refine ⟨_, appendAuditedEntry_of_publication hp hl (haud _) ht
    fun hf => length_keys_lt hpub hf (hids ▸ hc), rfl, ?_, ?_⟩
  · intro keyId encoded' he'
    rw [keyAt, ha.compliance, hnew]
    by_cases hs : keyId = publication.keyId
    · subst hs
      cases he.symm.trans he'
      have hn : newestBefore (·.keyId) (·.seq) encoded (s.entries.length + 1)
          (s.complianceKeys ++ [complianceRow entry publication encoded key]) =
          some (complianceRow entry publication encoded key) :=
        newestBefore_succ_self (complianceRow entry publication encoded key) hr ha.seq
      rw [AList.lookup_insert, hn, ← ha.seq]
      rfl
    · rw [AList.lookup_insert_ne hs, h.states keyId encoded' he', keyAt, newestBefore_succ_of_ne hr]
      intro row hrow
      rw [mem_singleton.mp hrow]
      rintro rfl
      exact hs (ComplianceKeyId.encode_inj he' he)
  · intro keyId
    rw [ha.take_entries, hids, AList.mem_insert, hpub]
    simp

theorem AuditsKeys.step (ha : Admitted s op entry)
    (happ : Appended ctx entry s s') (hc : (publishedKeys s'.entries).card ≤ maxComplianceKeys)
    (h : AuditsKeys s s.entries.length acc) :
    ∃ acc', appendAuditedEntry ctx.prim acc entry s.entries.length = .ok acc' ∧
      AuditsKeys s' (s.entries.length + 1) acc' := by
  cases ha with
  | handle request =>
    exact h.other hin hr happ (by unfold handleEntry; cases request.mode <;> rfl)
  | directory mutation => exact h.other hin hr happ (by cases mutation <;> rfl)
  | compliance _ _ ha => exact h.publish hin hr happ hc rfl ha

end

end Keys

/-! ## Whole runs -/

def Store.log (s : Store H) : List LogEntry := s.entries.map (·.entry)

/-- Both audits run through every prefix of the log. -/
structure Auditable (ctx : RegistryContext) (requested : Bytes) (s : Store H) : Prop where
  bindings : BindingInvariant s
  rows : s.KeyRowsBounded
  handles : ∀ n ≤ s.entries.length, ∃ acc : HandleAuditAccumulator H InMemoryHandleProjection,
    appendEntries ctx.prim ⟨.new, .empty, requested, none⟩ 0 (s.log.take n) = .ok acc ∧
      AuditsHandles s n requested acc
  keys : (publishedKeys s.entries).card ≤ maxComplianceKeys → ∀ n ≤ s.entries.length,
    ∃ acc : ComplianceAuditAccumulator H,
      appendEntries ctx.prim ⟨.new, ∅⟩ 0 (s.log.take n) = .ok acc ∧ AuditsKeys s n acc

theorem auditable_fresh [HashBytes H] (ctx : RegistryContext) (requested : Bytes) :
    Auditable ctx requested (fresh ctx : Store H) := by
  refine ⟨bindingInvariant_fresh ctx, by simp [KeyRowsBounded, fresh], ?_, ?_⟩
  · intro n hn
    obtain rfl : n = 0 := Nat.le_zero.mp hn
    refine ⟨_, rfl, ?_, rfl, ?_, rfl⟩
    · simp
    · intro handle
      rfl
  · intro _ n hn
    obtain rfl : n = 0 := Nat.le_zero.mp hn
    refine ⟨_, rfl, ?_, ?_, ?_⟩
    · simp
    · intro keyId encoded _
      rfl
    · simp [publishedKeys]

section Runs

variable {ctx : RegistryContext} {s s' : Store H} {entry : LogEntry} {requested : Bytes}

/-- One step for both auditors: old prefixes as before, the new one by one append. -/
theorem exists_replay_of_step {A : Type} [AuditAccumulator A] {start : A}
    (Audits : Store H → ℕ → A → Prop) (ha : Appended ctx entry s s')
    (hold : ∀ n ≤ s.entries.length, ∃ acc,
      appendEntries ctx.prim start 0 (s.log.take n) = .ok acc ∧ Audits s n acc)
    (hm : ∀ n ≤ s.entries.length, ∀ acc, Audits s n acc → Audits s' n acc)
    (hs : ∀ acc, Audits s s.entries.length acc → ∃ acc',
      AuditAccumulator.append ctx.prim acc entry s.entries.length = .ok acc' ∧
        Audits s' (s.entries.length + 1) acc') :
    ∀ n ≤ s'.entries.length, ∃ acc,
      appendEntries ctx.prim start 0 (s'.log.take n) = .ok acc ∧ Audits s' n acc := by
  obtain ⟨bytes, -, he⟩ := ha.entries
  have hlen : s.log.length = s.entries.length := by simp [log]
  intro n hn
  rw [he, length_append] at hn
  have hlog : s'.log = s.log ++ [entry] := by simp [log, he, entryRow]
  rw [hlog]
  rcases Nat.le_succ_iff.mp hn with hle | rfl
  · obtain ⟨acc, hr, hacc⟩ := hold n hle
    rw [take_append_of_le_length (hlen ▸ hle)]
    exact ⟨acc, hr, hm n hle acc hacc⟩
  · obtain ⟨acc, hr, hacc⟩ := hold _ le_rfl
    obtain ⟨acc', hl, ha'⟩ := hs acc hacc
    rw [take_of_length_le hlen.le] at hr
    rw [take_of_length_le (by simp [hlen])]
    exact ⟨acc', appendEntries_concat hr (by rwa [hlen, Nat.zero_add]), ha'⟩

theorem Auditable.append (hinv : LogInvariant ctx s)
    (hk : op.KeysValid ctx.prim) (haccept : Admitted s op entry) (ha : Appended ctx entry s s')
    (h : Auditable ctx requested s) : Auditable ctx requested s' := by
  refine ⟨ha.bindingInvariant hinv h.bindings, ha.keyRowsBounded h.rows, ?_, ?_⟩
  · exact exists_replay_of_step (AuditsHandles · · requested) ha h.handles
      (fun n hn acc hacc => hacc.append ha hn)
      fun acc hacc => hacc.step hinv h.bindings haccept hk ha
  · intro hc
    obtain ⟨bytes, -, he⟩ := ha.entries
    have hs : publishedKeys s.entries ⊆ publishedKeys s'.entries := by
      rw [he, publishedKeys_concat]
      exact Finset.subset_union_left
    exact exists_replay_of_step AuditsKeys ha (h.keys ((Finset.card_le_card hs).trans hc))
      (fun n hn acc hacc => hacc.append ha hn)
      fun acc hacc => hacc.step hinv h.rows haccept ha hc

theorem Auditable.challenge (hs : ChallengeStep s s')
    (h : Auditable ctx requested s) : Auditable ctx requested s' := by
  rw [hs.sameLog]
  refine ⟨⟨h.bindings.history, h.bindings.nodup, h.bindings.sound, h.bindings.current⟩, h.rows,
    ?_, ?_⟩
  · intro n hn
    obtain ⟨acc, hr, ha⟩ := h.handles n hn
    exact ⟨acc, hr, ha.frontier, ha.path, ha.bindings, ha.target⟩
  · intro hc n hn
    obtain ⟨acc, hr, ha⟩ := h.keys hc n hn
    exact ⟨acc, hr, ha.frontier, ha.states, ha.published⟩

end Runs

section Agreement

variable [HashBytes H] [DecidableEq H]

/-- Over every run of the registry with valid handle keys and few enough compliance
keys: both client auditors accept every prefix of the log, and after `n` entries the
client holds the registry's binding of every handle before sequence `n`, and the
registry's root. -/
theorem auditors_accept_registry_log (ctx : RegistryContext) (ops : List RegistryOp)
    (requested : Bytes) (hkeys : ∀ op ∈ ops, op.KeysValid ctx.prim)
    (hcard : (publishedKeys (runOps ctx ops (Store.fresh ctx : Store H)).entries).card ≤
      maxComplianceKeys) :
    let s : Store H := runOps ctx ops (fresh ctx)
    ∀ n ≤ s.entries.length, ∃ (handles : HandleAuditAccumulator H InMemoryHandleProjection)
        (keys : ComplianceAuditAccumulator H) (root : H),
        appendEntries ctx.prim ⟨.new, .empty, requested, none⟩ 0 (s.log.take n) = .ok handles ∧
        appendEntries ctx.prim ⟨.new, ∅⟩ 0 (s.log.take n) = .ok keys ∧
        (∀ handle, ∃ row, s.bindingBefore handle n = .ok row ∧
          handles.projection.bindings.lookup handle = row.map HandleHistoryRow.audited) ∧
        s.rootForSize n = .ok root ∧ handles.frontier.root = some root ∧
        keys.frontier.root = some root ∧ (n = s.entries.length → s.registryState.root = root) := by
  intro s n hn
  obtain ⟨hinv, h⟩ : LogInvariant ctx s ∧ Auditable ctx requested s := by
    refine runOps_induction ops ?_ ?_ (logInvariant_fresh ctx) (auditable_fresh ctx requested)
    · intro op hop s s' entry hinv ha happ h
      exact h.append hinv (hkeys op hop) ha happ
    · intro s s' hstep h
      exact h.challenge hstep
  obtain ⟨handles, hr, hh⟩ := h.handles n hn
  obtain ⟨keys, hr', hka⟩ := h.keys hcard n hn
  have hs := hinv.size_le
  have hroot : (MerkleFrontier.ofLeaves (s.leaves.take n)).root =
      some (logRoot (s.leaves.take n)) := by
    apply MerkleFrontier.root_ofLeaves
    simp only [length_take, length_leaves, i64Max] at hs ⊢
    omega
  refine ⟨handles, keys, logRoot (s.leaves.take n), hr, hr', ?_, ?_, ?_, ?_, ?_⟩
  · intro handle
    exact ⟨_, by rw [bindingBefore, toI64_of_le (hn.trans hs)]; rfl, hh.bindings handle⟩
  · exact rootForSize_eq hinv.tree (by simpa using hs) (by simpa using hn)
  · rw [hh.frontier]
    exact hroot
  · rw [hka.frontier]
    exact hroot
  · rintro rfl
    rw [hinv.root, take_of_length_le (by simp)]

end Agreement

def aliceOps : List RegistryOp :=
  [.handle 0 (aliceRequest .register),
    .handle 1 ⟨aliceHandle, sampleKey 0x62, aliceSubject, 2000, .rotate⟩]

theorem keysValid_aliceOps : ∀ op ∈ aliceOps, op.KeysValid symbolicPrimitives := by
  intro op hop
  simp only [aliceOps, mem_cons, not_mem_nil, or_false] at hop
  rcases hop with rfl | rfl
  · rintro _ ⟨⟩
    exact ⟨_, rfl, rfl⟩
  · rintro _ ⟨⟩
    exact ⟨_, rfl, rfl⟩

set_option maxRecDepth 10000 in
/-- A client that replays a claim and its rotation holds the new key. -/
theorem auditors_accept_rotated_key :
    ∃ (handles : HandleAuditAccumulator SymbolicHash InMemoryHandleProjection),
      appendEntries symbolicPrimitives ⟨.new, .empty, aliceHandle, none⟩ 0
        ((runOps symbolicContext aliceOps
          (Store.fresh symbolicContext : Store SymbolicHash)).log.take 2) = .ok handles ∧
      handles.projection.bindings.lookup aliceHandle =
        some ⟨replicate 32 0xbb, aliceSubject, 1⟩ := by
  obtain ⟨handles, keys, root, hr, -, hb, -⟩ :=
    auditors_accept_registry_log (H := SymbolicHash) symbolicContext aliceOps aliceHandle
      keysValid_aliceOps (by decide +kernel) 2 (by decide +kernel)
  obtain ⟨row, hrow, hl⟩ := hb aliceHandle
  refine ⟨handles, hr, ?_⟩
  rw [hl]
  have hn : (runOps symbolicContext aliceOps
      (fresh symbolicContext : Store SymbolicHash)).bindingBefore aliceHandle 2 =
        .ok (some ⟨1, aliceHandle, sampleKey 0x62, aliceSubject⟩) := by
    decide +kernel
  cases hrow.symm.trans hn
  decide +kernel

end Pigeonpost
