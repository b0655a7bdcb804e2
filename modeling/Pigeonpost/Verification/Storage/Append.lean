import Pigeonpost.Program.Storage.Append
import Pigeonpost.Verification.Shared.SymbolicRegistry
import Pigeonpost.Verification.Storage.Merkle

/-! # What one append does to the tables -/

namespace Pigeonpost

open Store List

variable {H : Type}

/-! ## The rows an entry adds -/

def entryRow (entry : LogEntry) (leaf : H) : EntryRow H :=
  ⟨entry.seq.toNat, entry.version, entry.kind.asStr, entry, entry.tsMs.toNat, leaf⟩

def historyRows (entry : LogEntry) : List HandleHistoryRow :=
  entry.handleBinding.toList.map fun binding =>
    ⟨entry.seq.toNat, binding.handle, binding.pubkey, binding.subject⟩

def bindingsAfter (entry : LogEntry) (rows : List CurrentBindingRow) : List CurrentBindingRow :=
  match entry.handleBinding with
  | none => rows
  | some binding =>
    Table.upsert (·.handle)
      ⟨binding.handle, binding.pubkey, binding.subject, entry.seq.toNat⟩ rows

def directoryAfter (entry : LogEntry) (rows : List DirectoryMutationRow) :
    List DirectoryMutationRow :=
  match entry.authenticatedDirectoryMutation with
  | none => rows
  | some (endpoint, loftPubkey, mutationSequence) =>
    Table.upsert (·.stream) ⟨endpoint, loftPubkey, mutationSequence.toNat, entry.seq.toNat,
      entry.kind.asStr⟩ rows

def complianceRow (entry : LogEntry) (publication : ComplianceKeyPublish)
    (keyId publicKey : Bytes) : ComplianceKeyRow :=
  ⟨entry.seq.toNat, keyId, publicKey, publication.notBeforeMs.toNat,
    publication.notAfterMs.toNat, entry.tsMs.toNat, publication.status.tag⟩

def complianceRows (entry : LogEntry) : List ComplianceKeyRow :=
  match entry.compliancePublication with
  | none => []
  | some publication =>
    match publication.keyId.encode, decodeHex publication.publicKey 32 with
    | .ok keyId, some publicKey => [complianceRow entry publication keyId publicKey]
    | _, _ => []

namespace Store

/-! ## Inversion of the insertions -/

section Insertions

variable {entry : LogEntry} {s s' : Store H}

theorem insertHandleRows_eq_ok (h : s.insertHandleRows entry = .ok s') :
    s' = { s with
      handleHistory := s.handleHistory ++ historyRows entry
      currentBindings := bindingsAfter entry s.currentBindings } := by
  unfold insertHandleRows at h
  unfold historyRows bindingsAfter
  split at h
  · next hb => simpa [hb] using (Except.ok.inj h).symm
  rename_i hb
  rw [hb]
  simp only [ok_iff] at h
  obtain ⟨seq, hs, s₁, hh, hu⟩ := h
  obtain ⟨rfl, -⟩ := toI64_eq_ok hs
  unfold insertHistory at hh
  unfold upsertBinding at hu
  split at hh
  · simp at hh
  cases hh
  split at hu
  · simp at hu
  exact (Except.ok.inj hu).symm

theorem updateDirectoryProjection_eq_ok (h : s.updateDirectoryProjection entry = .ok s') :
    s' = { s with directoryMutations := directoryAfter entry s.directoryMutations } := by
  unfold updateDirectoryProjection at h
  unfold directoryAfter
  cases hm : entry.authenticatedDirectoryMutation with
  | none => simpa [hm] using h.symm
  | some =>
    simp only [hm, ok_iff] at h
    obtain ⟨sequence, hs, seq, hseq, hu⟩ := h
    obtain ⟨rfl, -⟩ := toI64_eq_ok hs
    obtain ⟨rfl, -⟩ := toI64_eq_ok hseq
    unfold upsertDirectory at hu
    split at hu
    · simp at hu
    exact (Except.ok.inj hu).symm

theorem insertComplianceKey_eq_ok (h : s.insertComplianceKey entry = .ok s') :
    s' = { s with complianceKeys := s.complianceKeys ++ complianceRows entry } := by
  unfold insertComplianceKey at h
  unfold complianceRows
  cases hp : entry.compliancePublication with
  | none =>
    simp only [hp] at h
    simpa using (Except.ok.inj h).symm
  | some =>
    simp only [hp, ok_iff] at h
    obtain ⟨keyId, hk, h⟩ := h
    split at h
    · cases h
    rename_i hd
    simp only [ok_iff] at h
    obtain ⟨seq, hs, _, _, before, hb, after, ha, published, hpub, -, rfl⟩ := h
    obtain ⟨rfl, -⟩ := toI64_eq_ok hs
    obtain ⟨rfl, -⟩ := toI64_eq_ok hb
    obtain ⟨rfl, -⟩ := toI64_eq_ok ha
    obtain ⟨rfl, -⟩ := toI64_eq_ok hpub
    simp [hk, hd, complianceRow]

end Insertions

/-! ## The log invariant -/

def leaves (s : Store H) : List H := s.entries.map (·.leafHash)

@[simp] theorem length_leaves (s : Store H) : s.leaves.length = s.entries.length := by
  simp [leaves]

variable [Sha256 H]
variable {ctx : RegistryContext} {entry : LogEntry} {s s' : Store H}

/-- The entries are valid and numbered from zero, the nodes are those of their
leaves, the state row has their size and root, and handle rows name entries. -/
structure LogInvariant (ctx : RegistryContext) (s : Store H) : Prop where
  rows : ∀ i row, s.entries[i]? = some row → ∃ entry bytes,
    row = entryRow entry (leafHash bytes) ∧ entry.seq.toNat = i ∧
      entry.leafBytes ctx.prim = .ok bytes
  tree : StoresTree s.merkleNodes s.leaves
  size : s.registryState.size = s.entries.length
  size_le : s.entries.length ≤ i64Max
  root : s.registryState.root = logRoot s.leaves
  history : ∀ row ∈ s.handleHistory, row.seq < s.entries.length
  bindings : ∀ row ∈ s.currentBindings, row.seq < s.entries.length
  checkpoints : ∀ row ∈ s.checkpoints, row.treeSize ≤ s.entries.length

/-- What a successful append changes. -/
structure Appended (ctx : RegistryContext) (entry : LogEntry) (s s' : Store H) : Prop where
  seq : entry.seq.toNat = s.entries.length
  entries : ∃ bytes, entry.leafBytes ctx.prim = .ok bytes ∧
    s'.entries = s.entries ++ [entryRow entry (leafHash bytes)]
  history : s'.handleHistory = s.handleHistory ++ historyRows entry
  bindings : s'.currentBindings = bindingsAfter entry s.currentBindings
  directory : s'.directoryMutations = directoryAfter entry s.directoryMutations
  compliance : s'.complianceKeys = s.complianceKeys ++ complianceRows entry
  challenges : s'.identityChallenges = s.identityChallenges
  published : s'.publishedState = s.publishedState
  invariant : LogInvariant ctx s'

omit [Sha256 H] in
theorem leaves_concat {leaf : H} (he : s'.entries = s.entries ++ [entryRow entry leaf]) :
    s'.leaves = s.leaves ++ [leaf] := by
  simp [leaves, he, entryRow]

theorem Appended.take_leaves (ha : Appended ctx entry s s') {n : ℕ}
    (hn : n ≤ s.entries.length) : s'.leaves.take n = s.leaves.take n := by
  obtain ⟨bytes, -, he⟩ := ha.entries
  rw [leaves_concat he, take_append_of_le_length (by simpa using hn)]

def withEntry (entry : LogEntry) (leaf : H) (s : Store H) : Store H :=
  { s with
    entries := s.entries ++ [entryRow entry leaf]
    handleHistory := s.handleHistory ++ historyRows entry
    currentBindings := bindingsAfter entry s.currentBindings
    directoryMutations := directoryAfter entry s.directoryMutations
    complianceKeys := s.complianceKeys ++ complianceRows entry }

omit [Sha256 H] in
theorem leaves_withEntry (entry : LogEntry) (leaf : H) (s : Store H) :
    (s.withEntry entry leaf).leaves = s.leaves ++ [leaf] := by
  simp [leaves, withEntry, entryRow]

theorem insertEntryRows_eq_ok (h : s.insertEntryRows ctx entry = .ok s') :
    ∃ bytes, entry.leafBytes ctx.prim = .ok bytes ∧ entry.seq.toNat = s.entries.length ∧
      s' = s.withEntry entry (leafHash bytes) := by
  simp only [insertEntryRows, ok_iff] at h
  obtain ⟨s₁, he, s₂, hh, s₃, hd, hc⟩ := h
  simp only [insertEntryRow, ok_iff, not_not] at he
  obtain ⟨bytes, hl, seq, hs, tsMs, hts, hlen, rfl⟩ := he
  obtain ⟨rfl, -⟩ := toI64_eq_ok hs
  obtain ⟨rfl, -⟩ := toI64_eq_ok hts
  obtain rfl := insertHandleRows_eq_ok hh
  obtain rfl := updateDirectoryProjection_eq_ok hd
  obtain rfl := insertComplianceKey_eq_ok hc
  exact ⟨bytes, hl, hlen, rfl⟩

theorem logInvariant_fresh [HashBytes H] (ctx : RegistryContext) :
    LogInvariant ctx (fresh ctx : Store H) where
  rows := by simp [fresh]
  tree := by
    intro level i
    simp [fresh, leaves]
  size := rfl
  size_le := Nat.zero_le _
  root := by simp [fresh, leaves, logRoot]
  history := by simp [fresh]
  bindings := by simp [fresh]
  checkpoints := by simp [fresh]

theorem seq_of_mem_historyRows {row : HandleHistoryRow}
    (h : row ∈ historyRows entry) : row.seq = entry.seq.toNat := by
  obtain ⟨binding, -, rfl⟩ := mem_map.mp h
  rfl

theorem seq_of_mem_bindingsAfter {rows : List CurrentBindingRow} {row : CurrentBindingRow}
    (h : row ∈ bindingsAfter entry rows) : row.seq = entry.seq.toNat ∨ row ∈ rows := by
  unfold bindingsAfter at h
  split at h
  · exact .inr h
  · rcases Table.mem_upsert.mp h with rfl | ⟨hm, -⟩
    · exact .inl rfl
    · exact .inr hm

/-- Appending a row at the end keeps the rows valid and numbered. -/
theorem rows_append {entries : List (EntryRow H)}
    (hr : ∀ i row, entries[i]? = some row → ∃ entry bytes,
      row = entryRow entry (leafHash bytes) ∧ entry.seq.toNat = i ∧
        entry.leafBytes ctx.prim = .ok bytes)
    {bytes : Bytes} (hs : entry.seq.toNat = entries.length)
    (hl : entry.leafBytes ctx.prim = .ok bytes) (i : ℕ) (row : EntryRow H)
    (hrow : (entries ++ [entryRow entry (leafHash bytes)])[i]? = some row) :
    ∃ entry bytes, row = entryRow entry (leafHash bytes) ∧ entry.seq.toNat = i ∧
      entry.leafBytes ctx.prim = .ok bytes := by
  rcases Nat.lt_trichotomy i entries.length with hlt | rfl | hgt
  · rw [getElem?_append_left hlt] at hrow
    exact hr i row hrow
  · rw [getElem?_append_right le_rfl] at hrow
    simp only [Nat.sub_self, getElem?_cons_zero, Option.some.injEq] at hrow
    exact ⟨entry, bytes, hrow.symm, hs, hl⟩
  · rw [getElem?_eq_none (by simp; omega)] at hrow
    simp at hrow

/-- The one specification of an append: from the invariant it changes exactly the
rows of its entry, and restores the invariant. -/
theorem appendEntryInTransaction_spec [HashBytes H] {nowMs : ℕ} (hinv : LogInvariant ctx s)
    (h : s.appendEntryInTransaction ctx nowMs entry = .ok s') : Appended ctx entry s s' := by
  simp only [appendEntryInTransaction, ok_iff, not_not] at h
  obtain ⟨-, s₁, hrows, bytes, hl, s₂, hn, root, hr, treeSize, hs, _, _, s₃, hc, rfl⟩ := h
  obtain ⟨bytes', hl', hlen, rfl⟩ := insertEntryRows_eq_ok hrows
  obtain rfl : bytes' = bytes := Except.ok.inj (hl'.symm.trans hl)
  obtain ⟨rfl, hle⟩ := toI64_eq_ok hs
  obtain ⟨-, ⟨⟩⟩ := guard_eq_ok.mp hc
  obtain ⟨nodes, ha, ht⟩ := appendMerkleLeaf_spec (s := s.withEntry entry (leafHash bytes'))
    (leafHash bytes') (by simpa using hinv.size_le) hinv.tree
  rw [length_leaves, ← hlen] at ha
  cases ha.symm.trans hn
  rw [hinv.size] at hle hr
  rw [rootForSize_eq ht (by simpa using hle) (by simp), take_of_length_le (by simp)] at hr
  cases hr
  refine ⟨hlen, ⟨bytes', hl, rfl⟩, rfl, rfl, rfl, rfl, rfl, rfl, ?_⟩
  constructor
  · exact rows_append hinv.rows hlen hl
  · rw [← leaves_withEntry entry] at ht
    exact ht
  · simp [withEntry, hinv.size]
  · simpa [withEntry] using hle
  · rw [← leaves_withEntry entry]
    rfl
  · intro row hrow
    simp only [withEntry, mem_append, length_append, length_singleton] at hrow ⊢
    rcases hrow with hold | hnew
    · exact Nat.lt_succ_of_lt (hinv.history row hold)
    · rw [seq_of_mem_historyRows hnew, hlen]
      exact Nat.lt_succ_self _
  · intro row hrow
    simp only [withEntry, length_append, length_singleton] at hrow ⊢
    rcases seq_of_mem_bindingsAfter hrow with hnew | hold
    · rw [hnew, hlen]
      exact Nat.lt_succ_self _
    · exact Nat.lt_succ_of_lt (hinv.bindings row hold)
  · intro row hrow
    simp only [withEntry, mem_append, mem_singleton, length_append, length_singleton] at hrow ⊢
    rcases hrow with hold | rfl
    · exact Nat.le_succ_of_le (hinv.checkpoints row hold)
    · exact (congrArg (· + 1) hinv.size).le

end Store

/-! ## The persisted log refines the in-memory log -/

open MerkleLog

variable {H : Type} [Sha256 H] [HashBytes H]

/-- Stores by the entries appended to a fresh one. -/
inductive Appends (ctx : RegistryContext) : List LogEntry → Store H → Prop
  | fresh : Appends ctx [] (Store.fresh ctx)
  | append {entries : List LogEntry} {s s' : Store H} {entry : LogEntry} {nowMs : ℕ} :
    Appends ctx entries s → s.appendEntryInTransaction ctx nowMs entry = .ok s' →
    Appends ctx (entries ++ [entry]) s'

namespace Appends

variable {ctx : RegistryContext} {entries : List LogEntry} {s : Store H}

theorem logInvariant (h : Appends ctx entries s) : LogInvariant ctx s := by
  induction h with
  | fresh => exact logInvariant_fresh ctx
  | append _ hs ih => exact (appendEntryInTransaction_spec ih hs).invariant

theorem leaves_forall₂ (h : Appends ctx entries s) :
    List.Forall₂ (fun entry leaf => ∃ bytes, entry.leafBytes ctx.prim = .ok bytes ∧
      leaf = leafHash bytes) entries s.leaves := by
  induction h with
  | fresh => exact .nil
  | append hp hs ih =>
    obtain ⟨bytes, hl, he⟩ := (appendEntryInTransaction_spec hp.logInvariant hs).entries
    rw [Store.leaves, he, List.map_append]
    exact List.rel_append ih (.cons ⟨bytes, hl, rfl⟩ .nil)

end Appends

/-- After any appends a node row exists exactly for each complete subtree and holds
its root, and for every historical size the stored tree answers as the in-memory
log over that many leaves. -/
theorem storedTree_refines_merkleLog {ctx : RegistryContext} {entries : List LogEntry}
    {s : Store H} (h : Appends ctx entries s) :
    List.Forall₂ (fun entry leaf => ∃ bytes, entry.leafBytes ctx.prim = .ok bytes ∧
      leaf = leafHash bytes) entries s.leaves ∧
    (∀ level i, s.merkleNodes level i = if (i + 1) * 2 ^ level ≤ entries.length then
        some (MerkleLog.root ⟨(s.leaves.drop (i * 2 ^ level)).take (2 ^ level)⟩)
      else none) ∧
    ∀ size ≤ entries.length, let log : MerkleLog H := ⟨s.leaves.take size⟩
      s.rootForSize size = .ok log.root ∧
      (∀ index < size, ∃ proof, log.inclusionProof index size = some proof ∧
        s.inclusionPath 0 size index = .ok proof) ∧
      ∀ m, 1 ≤ m → m ≤ size → ∃ proof, log.consistencyProof m size = some proof ∧
        s.consistencyPath 0 size m true = .ok proof := by
  have hinv := h.logInvariant
  have hlen := h.leaves_forall₂.length_eq.symm
  have hle : s.leaves.length ≤ i64Max := by
    rw [length_leaves]
    exact hinv.size_le
  refine ⟨h.leaves_forall₂, ?_, ?_⟩
  · intro level i
    rw [hinv.tree level i, hlen, root_eq_logRoot]
    rfl
  · intro size hs log
    have hl : log.leaves.length = size := by
      simp only [log, length_take]
      omega
    have ht : log.leaves.take size = Store.range s.leaves 0 size := by
      rw [← hl, take_length, Store.range, drop_zero, hl]
    refine ⟨?_, ?_, ?_⟩
    · rw [rootForSize_eq hinv.tree hle (by omega), root_eq_logRoot]
    · intro index hindex
      refine ⟨_, if_neg (by omega), ?_⟩
      rw [ht]
      exact inclusionPath_eq hinv.tree hle 0 size index (by omega)
    · intro m hp hm
      refine ⟨_, if_neg (by omega), ?_⟩
      rw [ht]
      exact consistencyPath_eq hinv.tree hle 0 size m true (by omega)

theorem storedTree_refines_merkleLog_rotation :
    ∃ s : Store SymbolicHash, Appends symbolicContext [aliceClaim, aliceRotation] s ∧
      s.merkleNodes 1 0 = some (MerkleLog.root ⟨s.leaves.take 2⟩) ∧
      s.merkleNodes 1 1 = none ∧
      s.rootForSize 1 = .ok (MerkleLog.root ⟨s.leaves.take 1⟩) := by
  have hruns : (do
      let s ← (Store.fresh symbolicContext : Store SymbolicHash).appendEntryInTransaction
        symbolicContext 0 aliceClaim
      s.appendEntryInTransaction symbolicContext 0 aliceRotation).map (fun _ => ()) = .ok () := by
    decide +kernel
  obtain ⟨s₂, hruns, -⟩ := map_eq_ok.mp hruns
  obtain ⟨s₁, hc, hr⟩ := bind_eq_ok.mp hruns
  have h₂ : Appends symbolicContext [aliceClaim, aliceRotation] s₂ := .append (.append .fresh hc) hr
  obtain ⟨-, hn, hs⟩ := storedTree_refines_merkleLog h₂
  exact ⟨s₂, h₂, by simpa using hn 1 0, by simpa using hn 1 1, (hs 1 (by decide)).1⟩

end Pigeonpost
