import Pigeonpost.Verification.Client.Projection
import Pigeonpost.Verification.Entry.Unambiguous
import Pigeonpost.Verification.Log.Frontier
import Pigeonpost.Verification.Shared.SampleClient

/-! # Soundness of audited resolution

An auditor's frontier and projection belong to one list of entries, whatever the
server sends. The witnessed root then makes that list agree with the real log. -/

namespace Pigeonpost

open HandleProjectionStore LawfulHandleProjection MerkleFrontier RegistryClient List Function

variable {prim : Primitives} {entry : LogEntry} {log : List LogEntry} {bytes : List Bytes}
  {handle : Handle} {registry : Registry} {start finish index : ℕ}

/-! ## What a transfer feeds to an auditor -/

section Transfer

variable {A : Type} [AuditAccumulator A] {json : JsonDecoders} {acc acc' : A}

/-- The second auditor is the first after some entries. -/
def Fed (prim : Primitives) (acc : A) (start : ℕ) (acc' : A) (finish : ℕ) : Prop :=
  ∃ entries, appendEntries prim acc start entries = .ok acc' ∧ finish = start + entries.length

theorem Fed.refl (acc : A) (start : ℕ) : Fed prim acc start acc start := ⟨[], rfl, rfl⟩

theorem Fed.single (h : AuditAccumulator.append prim acc entry start = .ok acc') :
    Fed prim acc start acc' (start + 1) :=
  ⟨[entry], by simp [appendEntries, h, bind, Except.bind], rfl⟩

theorem Fed.trans {acc acc' acc'' : A} {middle : ℕ} (h : Fed prim acc start acc' middle)
    (h' : Fed prim acc' middle acc'' finish) : Fed prim acc start acc'' finish := by
  obtain ⟨xs, hxs, rfl⟩ := h
  obtain ⟨ys, hys, rfl⟩ := h'
  refine ⟨xs ++ ys, ?_, by simp [Nat.add_assoc]⟩
  rw [appendEntries_append, hxs]
  exact hys

variable {outcome : Option AuditDumpOutcome} {state state' : DumpCpuState A}

theorem fed_of_processDumpLine
    (h : processDumpLine prim json state finish = .ok (state', outcome)) :
    Fed prim state.accumulator state.index state'.accumulator state'.index := by
  unfold processDumpLine at h
  split at h
  · simp at h
  split at h
  · simp at h
  · rename_i entry _
    split at h
    · split at h
      · cases h
        exact .refl _ _
      · simp at h
    · simp only [ok_iff] at h
      obtain ⟨accumulator, ha, heq⟩ := h
      cases heq
      exact .single ha

theorem fed_of_processDumpChunk {remaining : Bytes}
    (h : processDumpChunk prim json state remaining finish = .ok (state', outcome)) :
    Fed prim state.accumulator state.index state'.accumulator state'.index := by
  induction hlen : remaining.length using Nat.strong_induction_on generalizing state remaining with
  | _ n ih =>
    rw [processDumpChunk] at h
    split at h
    · cases h
      exact .refl _ _
    · split at h
      · split at h
        · simp at h
        · cases h
          exact .refl _ _
      · rename_i line rest hs
        split at h
        · simp at h
        simp only [ok_iff, Prod.exists] at h
        obtain ⟨next, stop, hl, h⟩ := h
        have hf := fed_of_processDumpLine hl
        cases stop with
        | some =>
          cases h
          exact hf
        | none =>
          exact hf.trans (ih _ (hlen ▸ length_splitOnce_lt hs) h rfl)

theorem fed_of_processDump {state : DumpCpuState A} {transferred : ℕ}
    {chunks : List Bytes} {complete : Bool} {acc : A} {outcome : AuditDumpOutcome}
    (h : processDump prim json finish state transferred chunks complete = .ok (acc, outcome)) :
    ∃ reached, Fed prim state.accumulator state.index acc reached := by
  induction chunks generalizing state transferred with
  | nil =>
    refine ⟨state.index, ?_⟩
    simp only [processDump] at h
    split_ifs at h
    all_goals
      cases h
      exact .refl _ _
  | cons _ _ ih =>
    rw [processDump] at h
    split at h
    · cases h
      exact ⟨_, .refl _ _⟩
    · simp only [ok_iff, Prod.exists] at h
      obtain ⟨next, stop, hc, h⟩ := h
      have hf := fed_of_processDumpChunk hc
      cases stop with
      | some =>
        cases h
        exact ⟨_, hf⟩
      | none =>
        obtain ⟨reached, hr⟩ := ih h
        exact ⟨reached, hf.trans hr⟩

theorem fed_of_auditDumpRange {outcome : AuditDumpOutcome}
    (h : auditDumpRange prim json registry start finish acc = .ok (acc', outcome)) :
    ∃ reached, Fed prim acc start acc' reached := by
  have hs : ∀ {o}, Except.ok (acc, o) = (.ok (acc', outcome) : Except RegistryError _) →
      ∃ reached, Fed prim acc start acc' reached := by
    intro o h
    cases h
    exact ⟨_, .refl _ _⟩
  unfold auditDumpRange at h
  split at h
  · exact hs h
  split at h
  · simp at h
  split at h
  · exact hs h
  split_ifs at h
  · exact hs h
  · exact hs h
  · exact fed_of_processDump h

theorem fed_of_auditJsonPages (h : auditJsonPages prim json registry start finish acc = .ok acc') :
    ∃ reached, Fed prim acc start acc' reached := by
  induction hl : finish - start using Nat.strong_induction_on generalizing start acc with
  | _ n ih =>
    rw [auditJsonPages] at h
    split at h
    · rename_i hlt
      simp only [ok_iff] at h
      obtain ⟨page, -, hp, acc₁, ha, h⟩ := h
      have hpos : 0 < auditPageEntries := by decide
      have hf : Fed prim acc start acc₁ (min (start + auditPageEntries) finish) := ⟨_, ha, by omega⟩
      obtain ⟨reached, hr⟩ := ih _ (by omega) h rfl
      exact ⟨reached, hf.trans hr⟩
    · cases h
      exact ⟨_, .refl _ _⟩

end Transfer

/-! ## The log behind an auditor -/

def LeafBytes (prim : Primitives) (log : List LogEntry) (bytes : List Bytes) : Prop :=
  List.Forall₂ (fun entry leaf => entry.leafBytes prim = .ok leaf) log bytes

def lastMutation (log : List LogEntry) (path : Bytes) : Option HandlePayload :=
  ((log.filterMap LogEntry.handleBinding).filter fun payload => payload.handle = path).getLast?

/-- The key and subject a payload names. -/
def HandlePayload.owner (payload : HandlePayload) : Option Bytes × Bytes :=
  (parseHex32 payload.pubkey, payload.subject)

def AuditedHandleBinding.owner (binding : AuditedHandleBinding) : Option Bytes × Bytes :=
  (some binding.pubkey, binding.subject)

theorem lastMutation_concat_of_ne {path : Bytes}
    (h : ∀ payload, entry.handleBinding = some payload → payload.handle ≠ path) :
    lastMutation (log ++ [entry]) path = lastMutation log path := by
  cases hb : entry.handleBinding with
  | none => simp [lastMutation, filterMap_append, hb]
  | some payload => simp [lastMutation, filterMap_append, hb, h payload hb]

theorem lastMutation_concat_self {payload : HandlePayload}
    (h : entry.handleBinding = some payload) :
    lastMutation (log ++ [entry]) payload.handle = some payload := by
  simp [lastMutation, filterMap_append, h]

theorem LeafBytes.unique {log' : List LogEntry} (h : LeafBytes prim log bytes)
    (h' : LeafBytes prim log' bytes) : log = log' := by
  induction h generalizing log' with
  | nil =>
    cases h'
    rfl
  | cons he _ ih =>
    cases h' with
    | cons he' hr' => rw [LogEntry.leafBytes_inj he he', ih hr']

variable {H : Type} [Sha256 H]

/-- A client's state is that of a log. -/
structure Derived (prim : Primitives) (log : List LogEntry) (frontier : MerkleFrontier H)
    (bindings : Bytes → Option AuditedHandleBinding) : Prop where
  leaves : ∃ bytes, LeafBytes prim log bytes ∧
    frontier = MerkleFrontier.ofLeaves (bytes.map leafHash)
  size : log.length ≤ MerkleFrontier.u64Max
  bindings : ∀ handle : Handle, (lastMutation log handle.asPath).map HandlePayload.owner =
    (bindings handle.asPath).map AuditedHandleBinding.owner

theorem derived_nil {bindings : Bytes → Option AuditedHandleBinding}
    (h : ∀ path, bindings path = none) : Derived prim [] (new : MerkleFrontier H) bindings := by
  refine ⟨⟨[], .nil, by simp⟩, Nat.zero_le _, ?_⟩
  intro handle
  rw [h]
  rfl

theorem appendLeaf_eq_ok {leaves : List H} {frontier : MerkleFrontier H}
    (hlen : leaves.length ≤ u64Max)
    (h : appendLeaf prim (ofLeaves leaves) entry index = .ok frontier) :
    ∃ bytes, entry.leafBytes prim = .ok bytes ∧ leaves.length < u64Max ∧
      frontier = ofLeaves (leaves ++ [leafHash bytes]) := by
  simp only [appendLeaf, ok_iff] at h
  obtain ⟨-, bytes, hl, h⟩ := h
  have hlt : leaves.length < u64Max := by
    refine lt_of_le_of_ne hlen fun hm => ?_
    simp [append, appendHash, hm] at h
  simp only [append, appendHash_ofLeaves hlt, ok_iff] at h
  exact ⟨bytes, hl, hlt, h.2.symm⟩

theorem auditedMutation_eq_none
    (h : auditedMutation prim entry index = .ok none) (handle : Handle) (payload : HandlePayload)
    (hb : entry.handleBinding = some payload) : payload.handle ≠ handle.asPath := by
  rintro hp
  simp only [auditedMutation, hb, hp, Handle.parse_asPath] at h
  split at h
  · simp at h
  split at h
  · simp at h
  · simp at h

theorem auditedMutation_eq_some {mutation : AuditedHandleMutation}
    (h : auditedMutation prim entry index = .ok (some mutation)) :
    ∃ payload, entry.handleBinding = some payload ∧ payload.handle = mutation.handle ∧
      payload.owner = mutation.binding.owner := by
  unfold auditedMutation at h
  split at h
  · simp at h
  rename_i payload hb
  split at h
  · simp at h
  split at h
  · simp at h
  · rename_i pubkey hp
    split at h
    · cases h
      refine ⟨payload, hb, rfl, ?_⟩
      simp [HandlePayload.owner, AuditedHandleBinding.owner, hp, AuditedHandleMutation.binding]
    · simp at h

/-! ## Steps and runs of the auditor -/

section Auditor

variable {P : Type} [HandleProjectionStore P] [LawfulHandleProjection P] {projection : P}
  {acc acc' : HandleAuditAccumulator H P}

/-- An auditor whose frontier, projection and target belong to one log. -/
structure DerivedAuditor (prim : Primitives) (log : List LogEntry)
    (acc : HandleAuditAccumulator H P) : Prop where
  derived : Derived prim log acc.frontier (current acc.projection)
  target : acc.targetBinding = current acc.projection acc.requestedPath

section

variable (h : DerivedAuditor prim log acc)

include h

theorem DerivedAuditor.step (hok : appendHandleAuditedEntry prim acc entry index = .ok acc') :
    DerivedAuditor prim (log ++ [entry]) acc' ∧ saved acc'.projection = saved acc.projection ∧
      acc'.requestedPath = acc.requestedPath := by
  obtain ⟨bytes, hbytes, hf⟩ := h.derived.leaves
  have hlen : bytes.length = log.length := hbytes.length_eq.symm
  simp only [appendHandleAuditedEntry, ok_iff] at hok
  obtain ⟨frontier, hleaf, mutation, hm, hok⟩ := hok
  rw [hf] at hleaf
  obtain ⟨leaf, he, hlt, rfl⟩ := appendLeaf_eq_ok (by simpa [hlen] using h.derived.size) hleaf
  have hl : ∃ bytes', LeafBytes prim (log ++ [entry]) bytes' ∧
      ofLeaves (bytes.map leafHash ++ [leafHash leaf]) =
        (ofLeaves (bytes'.map leafHash) : MerkleFrontier H) :=
    ⟨bytes ++ [leaf], rel_append hbytes (.cons he .nil), by simp⟩
  have hsize : (log ++ [entry]).length ≤ u64Max := by
    simpa [hlen, Nat.succ_le_iff] using hlt
  cases mutation with
  | none =>
    cases hok
    refine ⟨⟨⟨hl, hsize, ?_⟩, h.target⟩, rfl, rfl⟩
    intro handle
    rw [lastMutation_concat_of_ne (auditedMutation_eq_none hm handle)]
    exact h.derived.bindings handle
  | some =>
    simp only [ok_iff] at hok
    obtain ⟨target, ht, projection, ha, rfl⟩ := hok
    obtain ⟨hc, hs⟩ := apply_ok ha
    obtain ⟨payload, hb, hp, ho⟩ := auditedMutation_eq_some hm
    refine ⟨⟨⟨hl, hsize, ?_⟩, ?_⟩, hs, rfl⟩
    · intro handle
      simp only [hc]
      by_cases hsame : payload.handle = handle.asPath
      · rw [← hsame, lastMutation_concat_self hb, hp, update_self,
          Option.map_some, Option.map_some, ho]
      · rw [lastMutation_concat_of_ne (by simp [hb, hsame]),
          update_of_ne (by rw [← hp]; exact Ne.symm hsame)]
        exact h.derived.bindings handle
    · simp only [hc]
      unfold updateTarget at ht
      split at ht
      · rename_i hsame
        simp only [ok_iff] at ht
        obtain ⟨_, -, rfl⟩ := ht
        rw [hsame, update_self]
      · rename_i hsame
        cases ht
        rw [update_of_ne (Ne.symm hsame)]
        exact h.target

theorem DerivedAuditor.run {entries : List LogEntry}
    (hok : appendEntries prim acc index entries = .ok acc') :
    DerivedAuditor prim (log ++ entries) acc' ∧ saved acc'.projection = saved acc.projection ∧
      acc'.requestedPath = acc.requestedPath := by
  induction entries generalizing log acc index with
  | nil =>
    cases hok
    exact ⟨by simpa using h, rfl, rfl⟩
  | cons _ _ ih =>
    simp only [appendEntries, ok_iff] at hok
    obtain ⟨next, hn, hok⟩ := hok
    obtain ⟨hstep, hs, hp⟩ := h.step hn
    obtain ⟨hr, hs', hp'⟩ := ih hstep hok
    exact ⟨by simpa using hr, hs'.trans hs, hp'.trans hp⟩

theorem DerivedAuditor.fed (hf : Fed prim acc start acc' finish) :
    ∃ log', DerivedAuditor prim log' acc' ∧ saved acc'.projection = saved acc.projection ∧
      acc'.requestedPath = acc.requestedPath := by
  obtain ⟨entries, hok, -⟩ := hf
  exact ⟨_, h.run hok⟩

/-- A change of the open segment that keeps the bindings keeps the log. -/
theorem DerivedAuditor.withProjection (hc : current projection = current acc.projection) :
    DerivedAuditor prim log { acc with projection } :=
  ⟨by simpa only [hc] using h.derived, by simpa only [hc] using h.target⟩

end

variable {client : RegistryClient H}

/-- A segment that breaks off is undone before its pages are read. -/
theorem DerivedAuditor.auditSegment (h : DerivedAuditor client.prim log acc)
    (hok : client.auditSegment registry start finish acc = .ok acc') :
    ∃ log', DerivedAuditor client.prim log' acc' ∧ acc'.requestedPath = acc.requestedPath := by
  simp only [RegistryClient.auditSegment, ok_iff, Prod.exists] at hok
  obtain ⟨started, hb, delivered, outcome, hd, hok⟩ := hok
  obtain ⟨hcur, hs⟩ := begin_ok hb
  obtain ⟨_, hf⟩ := fed_of_auditDumpRange hd
  obtain ⟨log₁, h₁, hsaved₁, hpath₁⟩ := (h.withProjection hcur).fed hf
  cases outcome with
  | complete =>
    simp only [ok_iff] at hok
    obtain ⟨projection, hc, rfl⟩ := hok
    exact ⟨log₁, h₁.withProjection (commit_ok hc).1, hpath₁⟩
  | useRangePages =>
    simp only [ok_iff] at hok
    obtain ⟨restored, hr, restarted, hrest, replayed, hp, projection, hc, rfl⟩ := hok
    have hres : current restored = current acc.projection := by
      have hu := (rollback_ok hr).1
      rw [hsaved₁, hs] at hu
      exact (Option.some.inj hu).symm
    have ha : current restarted = current acc.projection := (begin_ok hrest).1.trans hres
    obtain ⟨_, hf'⟩ := fed_of_auditJsonPages hp
    have hpath : delivered.requestedPath = acc.requestedPath := hpath₁
    rw [hpath] at hf'
    obtain ⟨log₂, h₂, -, hpath₂⟩ := (h.withProjection ha).fed hf'
    exact ⟨log₂, h₂.withProjection (commit_ok hc).1, hpath₂⟩

theorem DerivedAuditor.auditSegments {size : ℕ} (h : DerivedAuditor client.prim log acc)
    (hok : client.auditSegments registry start size acc = .ok acc') :
    ∃ log', DerivedAuditor client.prim log' acc' ∧ acc'.requestedPath = acc.requestedPath := by
  induction hl : size - start using Nat.strong_induction_on generalizing log start acc with
  | _ n ih =>
    rw [auditSegments] at hok
    split at hok
    · rename_i hlt
      simp only [ok_iff] at hok
      obtain ⟨acc₁, hs, hok⟩ := hok
      obtain ⟨log₁, h₁, hpath₁⟩ := h.auditSegment hs
      have hp : 0 < auditDumpSegmentEntries := by decide
      obtain ⟨log₂, h₂, hpath₂⟩ := ih _ (by omega) h₁ hok rfl
      exact ⟨log₂, h₂, hpath₂.trans hpath₁⟩
    · cases hok
      exact ⟨log, h, rfl⟩

end Auditor

/-! ## Accepted states -/

section Resolution

variable {P : Type} [HandleProjectionStore P] [HashBytes H] [DecidableEq H]

/-- The states audits have accepted, each with the projection returned with it. The
audits may have had other trust policies, servers, handles and clocks. -/
inductive Accepted (client : RegistryClient H) : HandleAuditState H → P → Prop
  | audited (trust : RegistryTrust H) {admitted inTime : Bool} {registry : Registry}
    {handle : Handle} {previous : Option (HandleAuditState H)}
    {accepted : Option (Checkpoint H)} {nowSecs : ℕ} {projection projection' : P}
    {verified : VerifiedHandle H} {state : HandleAuditState H} :
    (∀ old, previous = some old → Accepted client old projection) →
    RegistryClient.resolveAudited { client with trust } admitted inTime registry handle previous
      accepted nowSecs projection = .ok (verified, state, projection') →
    Accepted client state projection'

variable [LawfulHandleProjection P] {client : RegistryClient H} {acc : HandleAuditAccumulator H P}
  {projection projection' : P} {admitted inTime : Bool} {previous : Option (HandleAuditState H)}
  {accepted : Option (Checkpoint H)} {nowSecs : ℕ} {verified : VerifiedHandle H}
  {state : HandleAuditState H}

omit [HashBytes H] in
theorem derivedAuditor_of_startAudit {checkpoint : Checkpoint H}
    (hp : ∀ old, previous = some old → ∃ log, Derived prim log old.frontier (current projection))
    (hok : startAudit handle previous checkpoint projection = .ok (acc, start)) :
    acc.requestedPath = handle.asPath ∧ ∃ log, DerivedAuditor prim log acc := by
  cases previous with
  | none =>
    simp only [startAudit, ok_iff] at hok
    obtain ⟨reset, hr, heq⟩ := hok
    cases heq
    have hn := (reset_ok hr).1
    exact ⟨rfl, [], derived_nil hn, (hn _).symm⟩
  | some old =>
    simp only [startAudit, ok_iff] at hok
    obtain ⟨-, target, ht, heq⟩ := hok
    cases heq
    obtain ⟨log, hl⟩ := hp old rfl
    exact ⟨rfl, log, hl, binding_ok ht⟩

omit [HashBytes H] [LawfulHandleProjection P] in
theorem finishAudit_eq_ok {resolved : ResolveResponse}
    {checked : VerifiedCheckpoint H} {pubkey subject : Bytes} {entryKind : EntryKind}
    (hok : finishAudit handle resolved checked pubkey subject entryKind acc =
      .ok (verified, state, projection)) :
    acc.frontier.size = verified.checkpoint.size ∧
      acc.frontier.root = some verified.checkpoint.root ∧
      (∃ index, acc.targetBinding = some ⟨verified.pubkey, verified.subject, index⟩) ∧
      state.frontier = acc.frontier ∧ projection = acc.projection := by
  simp only [finishAudit, ok_iff] at hok
  obtain ⟨hr, hok⟩ := hok
  push Not at hr
  split at hok
  · cases hok
  rename_i binding ht
  simp only [ok_iff] at hok
  obtain ⟨projected, -, -, hb, hok⟩ := hok
  push Not at hb
  obtain ⟨-, rfl, rfl⟩ := hb
  split at hok
  · cases hok
  simp only [ok_iff, Prod.mk.injEq] at hok
  obtain ⟨rfl, rfl, rfl⟩ := hok
  exact ⟨hr.1, hr.2, ⟨binding.logIndex, ht⟩, rfl, rfl⟩

/-- What a successful audit knows: a log whose root was witnessed, with the returned
binding as its last mutation of the handle. -/
theorem derived_of_resolveAudited (client : RegistryClient H)
    (hp : ∀ old, previous = some old →
      ∃ log, Derived client.prim log old.frontier (current projection))
    (hok : client.resolveAudited admitted inTime registry handle previous accepted nowSecs
      projection = .ok (verified, state, projection')) :
    ∃ log, Derived client.prim log state.frontier (current projection') ∧
      state.frontier.size = verified.checkpoint.size ∧
      state.frontier.root = some verified.checkpoint.root ∧
      ∃ index, current projection' handle.asPath =
        some ⟨verified.pubkey, verified.subject, index⟩ := by
  unfold resolveAudited at hok
  split_ifs at hok
  simp only [resolveAuditedInner, ok_iff, Prod.exists] at hok
  obtain ⟨-, -, resolved, -, checked, -, -, -, -, -, -, -, pubkey, subject, entryKind, -, acc,
    start, hstart, acc', hs, hfin⟩ := hok
  obtain ⟨hpath, log, ha⟩ := derivedAuditor_of_startAudit hp hstart
  obtain ⟨log', ha', hp'⟩ := ha.auditSegments hs
  obtain ⟨hsize, hr, ⟨index, ht⟩, hf, rfl⟩ := finishAudit_eq_ok hfin
  refine ⟨log', hf ▸ ha'.derived, hf ▸ hsize, hf ▸ hr, index, ?_⟩
  rw [← ht, ha'.target, hp', hpath]

theorem Accepted.derived (h : Accepted client state projection) :
    ∃ log, Derived client.prim log state.frontier (current projection) := by
  induction h with
  | audited trust _ hok ih =>
    obtain ⟨log, hl, -⟩ := derived_of_resolveAudited { client with trust } ih hok
    exact ⟨log, hl⟩

/-- Against every server, and from every accepted state with its projection: a handle
that resolves under a checkpoint of the root of a log has the key and subject of its
last mutation in that log. -/
theorem resolveAudited_sound (hleaf : Function.Injective (leafHash : Bytes → H))
    (hnode : Function.Injective2 (nodeHash : H → H → H))
    (hprevious : ∀ old, previous = some old → Accepted client old projection)
    (hok : client.resolveAudited admitted inTime registry handle previous accepted nowSecs
      projection = .ok (verified, state, projection'))
    (hbytes : LeafBytes client.prim log bytes)
    (hsize : verified.checkpoint.size = log.length)
    (hroot : verified.checkpoint.root = MerkleLog.root ⟨bytes.map leafHash⟩) :
    ∃ payload, lastMutation log handle.asPath = some payload ∧
      parseHex32 payload.pubkey = some verified.pubkey ∧ payload.subject = verified.subject := by
  obtain ⟨log', hl', hs', hr', index, hc⟩ :=
    derived_of_resolveAudited client (fun old hold => (hprevious old hold).derived) hok
  obtain ⟨bytes', hb', hf⟩ := hl'.leaves
  have hlen' : bytes'.length = log'.length := hb'.length_eq.symm
  have hlen : bytes'.length = bytes.length := by
    have hcount : bytes'.length = verified.checkpoint.size := by
      rw [← hs', hf]
      simp
    rw [hcount, hsize]
    exact hbytes.length_eq
  have hb : (bytes'.map (leafHash : Bytes → H)).length < 2 ^ 64 := by
    have := hl'.size
    simp only [u64Max] at this
    simp only [length_map]
    omega
  have hsame : bytes' = bytes := by
    rw [hf, root_ofLeaves hb, hroot, MerkleLog.root_eq_logRoot, Option.some.injEq] at hr'
    exact map_injective_iff.mpr hleaf
      (MerkleTree.treeHash_injective emptyRoot nodeHash hnode _ _ (by simp [hlen]) hr')
  subst hsame
  obtain rfl := hbytes.unique hb'
  have hl := hl'.bindings handle
  rw [hc, Option.map_some, Option.map_eq_some_iff] at hl
  obtain ⟨payload, hp, ho⟩ := hl
  obtain ⟨hk, hs⟩ := Prod.mk.inj ho
  exact ⟨payload, hp, hk, hs⟩

end Resolution

/-- The claim is audited over a dump, the rotation over pages after a broken dump. -/
def sampleAudits : Except RegistryError
    (VerifiedHandle SampleHash × HandleAuditState SampleHash × InMemoryHandleProjection) := do
  let (_, state, projection) ← sampleClient.resolveAudited true true claimRegistry alice none none
    100 InMemoryHandleProjection.empty
  sampleClient.resolveAudited true true rotationRegistry alice (some state) none 100 projection

set_option maxRecDepth 10000 in
theorem sampleAudits_checkpoint :
    sampleAudits.map (fun result => (result.1.checkpoint.size, result.1.checkpoint.root)) =
      .ok (2, nodeHash claimHash rotationHash) := by
  decide +kernel

/-- The second audit starts from the accepted state of the first and returns the key
of the rotation. -/
theorem resolveAudited_sound_rotation :
    ∃ verified state projection, sampleAudits = .ok (verified, state, projection) ∧
      ∃ payload, lastMutation [aliceClaim, aliceRotation] alice.asPath = some payload ∧
        parseHex32 payload.pubkey = some verified.pubkey ∧
        payload.subject = verified.subject := by
  obtain ⟨⟨verified, state, projection⟩, ha, hc⟩ := map_eq_ok.mp sampleAudits_checkpoint
  obtain ⟨hsize, hr⟩ := Prod.mk.inj hc
  refine ⟨verified, state, projection, ha, ?_⟩
  simp only [sampleAudits, ok_iff, Prod.exists] at ha
  obtain ⟨_, old, kept, hf, hs⟩ := ha
  have hacc : Accepted sampleClient old kept := .audited sampleTrust (by simp) hf
  refine resolveAudited_sound SampleHash.leafHash_injective SampleHash.nodeHash_injective2
    (by rintro _ ⟨⟩; exact hacc) hs (.cons rfl (.cons rfl .nil)) hsize ?_
  exact hr.trans (by decide +kernel)

end Pigeonpost
