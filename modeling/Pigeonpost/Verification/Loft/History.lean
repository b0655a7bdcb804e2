import Pigeonpost.Verification.Loft.Writes
import Pigeonpost.Verification.Shared.SampleLoft

/-! # Agents and rotations over whole runs

The records a loft has accepted at an address follow each other, until a rotation ends
them for good. -/

namespace Pigeonpost

open Loft KeyedTable SampleLoft List

variable {H : Type} {ctx : LoftContext} {store store' : LoftStore H} {log : List AcceptedRecord}
  {record : RotationRecord} {capacity now : ℕ}

/-- A record that entered the store. -/
inductive AcceptedRecord where
  | agent (address : Address) (record : AgentRecord)
  | rotation (address : Address) (record : RotationRecord)

namespace LoftStore

/-! ## Histories -/

def PutsRecord : StoreOp H → Prop
  | .putAgentRecord _ _ _ => True
  | .putRotationRecord _ _ _ => True
  | _ => False

variable {op : StoreOp H}

section Histories

variable [Sha256 H] [HashBytes H] [DecidableEq H] (ctx : LoftContext)

/-- The record a successful operation stores. A repeated one is there already. -/
def accepted (store : LoftStore H) : StoreOp H → List AcceptedRecord
  | .putAgentRecord text record _ =>
    match Address.parse text with
    | .ok address =>
      if (store.agents.lookup address).any fun row => row.record = ctx.json.agent record then []
      else [.agent address record]
    | .error _ => []
  | .putRotationRecord text record _ =>
    match Address.parse text with
    | .ok address =>
      if (store.rotations.lookup address).isSome then [] else [.rotation address record]
    | .error _ => []
  | _ => []

def historyStep (store : LoftStore H) (call : ℕ × StoreOp H) : LoftStore H × List AcceptedRecord :=
  match store.execute ctx call.1 call.2 with
  | .ok store' => (store', store.accepted ctx call.2)
  | .error _ => (store, [])

def history (store : LoftStore H) (calls : List (ℕ × StoreOp H)) :
    LoftStore H × List AcceptedRecord :=
  Machine.run (historyStep ctx) store calls

/-- The other operations leave the records alone. -/
theorem records_of_execute (hop : ¬PutsRecord op) (h : store.execute ctx capacity op = .ok store') :
    store'.agents = store.agents ∧ store'.rotations = store.rotations := by
  have hi : ∀ {wrap id storedAt expiresAt expected stored},
      store.insert ctx wrap id storedAt expiresAt capacity expected = .ok (store', stored) →
      store'.agents = store.agents ∧ store'.rotations = store.rotations := by
    intro _ _ _ _ _ _ h
    obtain ⟨-, -, ⟨rfl, -⟩ | ⟨-, -, row, ha, -⟩⟩ := insert_eq_ok h
    · exact ⟨rfl, rfl⟩
    · exact ⟨ha.agents, ha.rotations⟩
  cases op with
  | putAgentRecord | putRotationRecord => exact absurd trivial hop
  | insert =>
    obtain ⟨⟨_, stored⟩, hins, rfl⟩ := map_eq_ok.mp h
    exact hi hins
  | admission =>
    obtain ⟨⟨_, stored⟩, ha, rfl⟩ := map_eq_ok.mp h
    exact hi (admitEvent_eq_ok ha).2
  | sweepExpired =>
    obtain ⟨⟨_, count⟩, hs, rfl⟩ := map_eq_ok.mp h
    obtain rfl | ⟨swept, hs⟩ := sweepExpired_eq_ok hs
    · exact ⟨rfl, rfl⟩
    · exact ⟨hs.agents, hs.rotations⟩
  | putPolicy =>
    obtain rfl | ⟨row, hp⟩ := putPolicy_eq_ok h
    · exact ⟨rfl, rfl⟩
    · exact ⟨hp.agents, hp.rotations⟩

end Histories

/-- The readers undo the writers. -/
structure RoundTrips (json : LoftJson) : Prop where
  agent : ∀ record, json.readAgent (json.agent record) = some record
  rotation : ∀ record, json.readRotation record.toJson = some record

theorem roundTrips_sample : RoundTrips json where
  agent := inverseAt_write agentText_injective agent
  rotation := inverseAt_write RotationRecord.toJson_injective rotation

variable [Sha256 H] [HashBytes H] {row : AgentRow}

/-- What may be accepted after a record of the same address. -/
def Follows (H : Type) [Sha256 H] [HashBytes H] : AcceptedRecord → AcceptedRecord → Prop
  | .agent a earlier, .agent b later =>
    a = b → earlier.seq < later.seq ∧ later.successorHash = earlier.successorHash
  | .agent a earlier, .rotation b later =>
    a = b → earlier.seq < later.seq ∧ Address.keyDigest H later.toPubkey = earlier.successorHash
  | .rotation a _, .agent b _ => a ≠ b
  | .rotation a _, .rotation b _ => a ≠ b

/-! ## The invariant -/

/-- The row holds a verified record. -/
structure HoldsAgent (H : Type) [Sha256 H] [HashBytes H] (ctx : LoftContext) (row : AgentRow)
    (record : AgentRecord) : Prop where
  text : row.record = ctx.json.agent record
  seq : row.seq = record.seq.toNat
  verified : record.verify H ctx.prim row.address = .ok ()

/-- The row holds a rotation that its agent's record authorizes. -/
structure HoldsRotation (H : Type) [Sha256 H] [HashBytes H] (ctx : LoftContext)
    (row : RotationRow) (agent : AgentRecord) (record : RotationRecord) : Prop where
  text : row.record = record.toJson
  source : record.verifySourceAddress H ctx.prim row.fromAddress = .ok ()
  verified : ∃ now, record.verify H ctx.prim agent.successorHash agent.seq now = .ok ()

/-- How the tables stand to what was accepted. -/
structure Recorded (ctx : LoftContext) (store : LoftStore H) (log : List AcceptedRecord) :
    Prop where
  agents : ∀ address row, store.agents.lookup address = some row →
    ∃ record, HoldsAgent H ctx row record
  rotations : ∀ address row, store.rotations.lookup address = some row →
    ∃ agentRow agent record, store.agents.lookup address = some agentRow ∧
      HoldsAgent H ctx agentRow agent ∧ HoldsRotation H ctx row agent record
  agent_mem : ∀ address earlier, .agent address earlier ∈ log →
    ∃ row record, store.agents.lookup address = some row ∧ HoldsAgent H ctx row record ∧
      earlier.seq ≤ record.seq ∧ record.successorHash = earlier.successorHash
  rotation_mem : ∀ address record, .rotation address record ∈ log →
    ∃ row, store.rotations.lookup address = some row ∧ row.record = record.toJson
  follows : log.Pairwise (Follows H)

theorem HoldsAgent.unique (hj : RoundTrips ctx.json) {a b : AgentRecord}
    (ha : HoldsAgent H ctx row a) (hb : HoldsAgent H ctx row b) : a = b := by
  have hr := hj.agent a
  rw [← ha.text, hb.text, hj.agent b] at hr
  exact (Option.some.inj hr).symm

variable {address : Address}

/-- The part of an earlier record in the invariant, against the record stored now. -/
theorem Recorded.earlier (h : Recorded ctx store log) (hj : RoundTrips ctx.json)
    {earlier record : AgentRecord} (hm : .agent address earlier ∈ log)
    (hl : store.agents.lookup address = some row) (hh : HoldsAgent H ctx row record) :
    earlier.seq ≤ record.seq ∧ record.successorHash = earlier.successorHash := by
  obtain ⟨row', record', hl', hh', hs, hhash⟩ := h.agent_mem address earlier hm
  cases hl.symm.trans hl'
  rw [hh.unique hj hh']
  exact ⟨hs, hhash⟩

/-- Operations on other tables. -/
theorem Recorded.congr (h : Recorded ctx store log) (ha : store'.agents = store.agents)
    (hr : store'.rotations = store.rotations) : Recorded ctx store' (log ++ []) := by
  rw [append_nil]
  exact ⟨ha ▸ h.agents, ha ▸ hr ▸ h.rotations, ha ▸ h.agent_mem, hr ▸ h.rotation_mem, h.follows⟩

theorem Recorded.putsAgent (h : Recorded ctx store log) (hjson : RoundTrips ctx.json)
    {record : AgentRecord}
    (hp : PutsAgent capacity store store' row) (hh : HoldsAgent H ctx row record)
    (ha : ∀ old, store.agents.lookup row.address = some old →
      store.ensureAdvances ctx row.address record old = .ok ()) :
    Recorded ctx store' (log ++ [.agent row.address record]) := by
  -- no rotation stands at the address: it would stand beside a record and end it
  have hfree : store.rotations.lookup row.address = none := by
    cases hr : store.rotations.lookup row.address with
    | none => rfl
    | some =>
      obtain ⟨agentRow, -, -, hl, -⟩ := h.rotations _ _ hr
      exact absurd hr (by simp [(ensureAdvances_eq_ok (ha _ hl)).1])
  have hlater : ∀ earlier, .agent row.address earlier ∈ log →
      earlier.seq < record.seq ∧ record.successorHash = earlier.successorHash := by
    intro earlier hm
    obtain ⟨old, prior, hl, hprior, hseq, hhash⟩ := h.agent_mem _ earlier hm
    obtain ⟨-, prior', hread, hh', hs'⟩ := ensureAdvances_eq_ok (ha old hl)
    rw [hprior.text, hjson.agent] at hread
    cases hread
    exact ⟨UInt64.lt_of_le_of_lt hseq hs', hh'.symm.trans hhash⟩
  refine ⟨?_, ?_, ?_, ?_, ?_⟩
  · intro address found hf
    rw [hp.agents, lookup_put_eq_some] at hf
    obtain ⟨-, rfl⟩ | ⟨-, hf⟩ := hf
    · exact ⟨record, hh⟩
    · exact h.agents address found hf
  · intro address found hf
    rw [hp.rotations] at hf
    have hne : address ≠ row.address := fun heq => by simp [heq, hfree] at hf
    rw [hp.agents, lookup_put_of_ne hne]
    exact h.rotations address found hf
  · intro address earlier hm
    rw [hp.agents]
    by_cases hs : address = row.address
    · subst hs
      refine ⟨row, record, lookup_put_self, hh, ?_⟩
      obtain hm | hm := mem_append.mp hm
      · exact ⟨UInt64.le_of_lt (hlater earlier hm).1, (hlater earlier hm).2⟩
      · cases mem_singleton.mp hm
        exact ⟨UInt64.le_refl _, rfl⟩
    · rw [lookup_put_of_ne hs]
      obtain hm | hm := mem_append.mp hm
      · exact h.agent_mem address earlier hm
      · cases mem_singleton.mp hm
        exact absurd rfl hs
  · intro address rotation hm
    rw [hp.rotations]
    exact h.rotation_mem address rotation (by simpa using hm)
  · refine pairwise_append_singleton.mpr ⟨h.follows, fun earlier hm => ?_⟩
    cases earlier with
    | agent _ earlier =>
      rintro rfl
      exact hlater earlier hm
    | rotation _ rotation =>
      rintro rfl
      obtain ⟨found, hf, -⟩ := h.rotation_mem _ rotation hm
      simp [hfree] at hf

theorem verify_rotation_eq_ok {prim : Primitives} {pinned : Bytes32}
    {lastSeq : UInt64} (h : record.verify H prim pinned lastSeq now = .ok ()) :
    Address.keyDigest H record.toPubkey = pinned ∧ lastSeq < record.seq ∧
      record.verify H prim pinned lastSeq record.activatedAt.toNat = .ok () := by
  simp only [RotationRecord.verify, ok_iff] at h ⊢
  obtain ⟨hf, _, hfrom, _, hto, _, ho, _, hinc, hh, hs, -, hp⟩ := h
  refine ⟨not_not.mp hh, ?_, hf, (), hfrom, (), hto, (), ho, (), hinc, hh, hs, by omega, hp⟩
  rw [UInt64.lt_iff_toNat_lt]
  omega

theorem Recorded.fresh : Recorded ctx (LoftStore.fresh : LoftStore H) [] where
  agents := nofun
  rotations := nofun
  agent_mem := nofun
  rotation_mem := nofun
  follows := .nil

variable {text : Bytes}

/-- An accepted rotation is read back. -/
theorem Recorded.rotationRecord (h : Recorded ctx store log) (hjson : RoundTrips ctx.json)
    (hp : Address.parse text = .ok address) (hm : .rotation address record ∈ log) :
    store.rotationRecord ctx text = .ok (some record) := by
  obtain ⟨row, hr, ht⟩ := h.rotation_mem address record hm
  obtain ⟨agentRow, agent, stored, har, ha, hs⟩ := h.rotations address row hr
  obtain rfl : record = stored := by
    have hread := hjson.rotation record
    rw [← ht, hs.text, hjson.rotation] at hread
    exact (Option.some.inj hread).symm
  obtain ⟨now, hv⟩ := hs.verified
  have hav := ha.verified
  have hsou := hs.source
  rw [key_of_lookup har] at hav
  rw [key_of_lookup hr] at hsou
  simp only [LoftStore.rotationRecord, hp, hr, har, ha.text, ht, hjson.agent,
    hjson.rotation, hav, hsou, (verify_rotation_eq_ok hv).2.2, okOr_some,
    Except.mapError, ok_bind]
  rfl

section

variable (h : Recorded ctx store log)

include h

section

variable (hj : RoundTrips ctx.json)

include hj

theorem Recorded.putsRotation {agentRow : AgentRow} {row : RotationRow} {agent : AgentRecord}
    (hp : PutsRotation capacity store store' agentRow row)
    (hr : ctx.json.readAgent agentRow.record = some agent)
    (hh : HoldsRotation H ctx row agent record) :
    Recorded ctx store' (log ++ [.rotation row.fromAddress record]) := by
  obtain ⟨hfree, -⟩ := insert_eq_some.mp hp.rotations
  have ha : HoldsAgent H ctx agentRow agent := by
    obtain ⟨stored, hsto⟩ := h.agents _ _ hp.source
    rw [hsto.text, hj.agent] at hr
    cases hr
    exact hsto
  have hkey : agentRow.address = row.fromAddress := key_of_lookup hp.source
  have hself : store'.agents.lookup row.fromAddress =
      some { agentRow with rotationReservation := 0 } := by
    rw [hp.agents, lookup_put_eq_some]
    exact .inl ⟨hkey, rfl⟩
  have hk : HoldsAgent H ctx { agentRow with rotationReservation := 0 } agent :=
    ⟨ha.text, ha.seq, ha.verified⟩
  have ho : ∀ address, row.fromAddress ≠ address →
      store'.agents.lookup address = store.agents.lookup address := by
    intro address hne
    rw [hp.agents, lookup_put_of_ne]
    exact fun heq => hne (hkey.symm.trans heq.symm)
  refine ⟨?_, ?_, ?_, ?_, ?_⟩
  · intro address found hf
    by_cases hs : row.fromAddress = address
    · subst hs
      cases hself.symm.trans hf
      exact ⟨agent, hk⟩
    · rw [ho address hs] at hf
      exact h.agents address found hf
  · intro address found hf
    rw [lookup_insert hp.rotations] at hf
    by_cases hs : row.fromAddress = address
    · subst hs
      rw [if_pos rfl] at hf
      cases hf
      exact ⟨_, agent, record, hself, hk, hh⟩
    · rw [if_neg hs] at hf
      rw [ho address hs]
      exact h.rotations address found hf
  · intro address earlier hm
    have hm : .agent address earlier ∈ log := by simpa using hm
    by_cases hs : row.fromAddress = address
    · subst hs
      exact ⟨_, agent, hself, hk, h.earlier hj hm hp.source ha⟩
    · rw [ho address hs]
      exact h.agent_mem address earlier hm
  · intro address rotation hm
    rw [lookup_insert hp.rotations]
    obtain hm | hm := mem_append.mp hm
    · obtain ⟨found, hf, ht⟩ := h.rotation_mem address rotation hm
      have hne : row.fromAddress ≠ address := fun heq => by simp [← heq, hfree] at hf
      exact ⟨found, by rw [if_neg hne, hf], ht⟩
    · cases mem_singleton.mp hm
      exact ⟨row, if_pos rfl, hh.text⟩
  · refine pairwise_append_singleton.mpr ⟨h.follows, fun earlier hm => ?_⟩
    cases earlier with
    | agent _ earlier =>
      rintro rfl
      obtain ⟨now, hv⟩ := hh.verified
      obtain ⟨hhash, hseq, -⟩ := verify_rotation_eq_ok hv
      obtain ⟨hle, hs⟩ := h.earlier hj hm hp.source ha
      exact ⟨UInt64.lt_of_le_of_lt hle hseq, hhash.trans hs⟩
    | rotation _ rotation =>
      rintro rfl
      obtain ⟨found, hf, -⟩ := h.rotation_mem _ rotation hm
      simp [hfree] at hf

/-! ## Whole runs -/

/-- A successful put of an agent's record. One that is there already changes nothing. -/
theorem Recorded.putAgentRecord {record : AgentRecord}
    (hput : store.putAgentRecord ctx text record capacity now = .ok store') :
    Recorded ctx store' (log ++ store.accepted ctx (.putAgentRecord text record now)) := by
  obtain ⟨address, hp, hv, ⟨rfl, row, hl, hs⟩ |
    ⟨row, hputs, rfl, hseq, hr, hold⟩⟩ := putAgentRecord_eq_ok hput
  · have hn : store'.accepted ctx (.putAgentRecord text record now) = [] := by
      simp [accepted, hp, hl, hs]
    rw [hn, append_nil]
    exact h
  · have hnew : store.accepted ctx (.putAgentRecord text record now) =
        [.agent row.address record] := by
      cases hl : store.agents.lookup row.address with
      | none => simp [accepted, hp, hl]
      | some old => simp [accepted, hp, hl, (hold old hl).1]
    rw [hnew]
    exact h.putsAgent hj hputs ⟨hr, hseq, hv⟩ fun old hl =>
      (hold old hl).2.2

theorem Recorded.putRotationRecord {stored : Bool}
    (hput : store.putRotationRecord ctx text record now capacity = .ok (store', stored)) :
    Recorded ctx store' (log ++ store.accepted ctx (.putRotationRecord text record now)) := by
  obtain ⟨address, hp, hs, ⟨rfl, -, row, hl, -⟩ |
    ⟨-, agentRow, row, agent, hputs, rfl, hr, hread, -, hv⟩⟩ :=
    putRotationRecord_eq_ok hput
  · have hn : store'.accepted ctx (.putRotationRecord text record now) = [] := by
      simp [accepted, hp, hl]
    rw [hn, append_nil]
    exact h
  · have hnew : store.accepted ctx (.putRotationRecord text record now) =
        [.rotation row.fromAddress record] := by
      simp [accepted, hp, (insert_eq_some.mp hputs.rotations).1]
    rw [hnew]
    exact h.putsRotation hj hputs hread ⟨hr, hs, now, hv⟩

variable [DecidableEq H]

theorem Recorded.historyStep (call : ℕ × StoreOp H) :
    Recorded ctx (store.historyStep ctx call).1 (log ++ (store.historyStep ctx call).2) := by
  unfold LoftStore.historyStep
  cases he : store.execute ctx call.1 call.2 with
  | error =>
    rw [append_nil]
    exact h
  | ok =>
    obtain ⟨capacity, op⟩ := call
    cases op with
    | putAgentRecord => exact h.putAgentRecord hj he
    | putRotationRecord =>
      obtain ⟨⟨_, stored⟩, hp, rfl⟩ := map_eq_ok.mp he
      exact h.putRotationRecord hj hp
    | insert | admission | sweepExpired | putPolicy =>
      obtain ⟨ha, hr⟩ := records_of_execute ctx id he
      exact h.congr ha hr

/-- The invariant goes on from every store it holds of. -/
theorem Recorded.history (calls : List (ℕ × StoreOp H)) :
    Recorded ctx (store.history ctx calls).1 (log ++ (store.history ctx calls).2) := by
  refine Machine.run_invariant (fun state out => Recorded ctx state (log ++ out)) ?_ calls ?_
  · rw [append_nil]
    exact h
  · intro call _ state out hs
    rw [← append_assoc]
    exact hs.historyStep hj call

end

end

variable [DecidableEq H]

theorem eq_of_accepted_nil (hputs : PutsRecord op) (he : store.execute ctx capacity op = .ok store')
    (hn : store.accepted ctx op = []) : store' = store := by
  cases op with
  | putAgentRecord =>
    obtain ⟨address, hp, -, ⟨heq, -⟩ | ⟨row, -, rfl, -, -, hold⟩⟩ := putAgentRecord_eq_ok he
    · exact heq
    · cases hl : store.agents.lookup row.address with
      | none => simp [accepted, hp, hl] at hn
      | some old => simp [accepted, hp, hl, (hold old hl).1] at hn
  | putRotationRecord =>
    obtain ⟨⟨_, stored⟩, hput, rfl⟩ := map_eq_ok.mp he
    obtain ⟨address, hp, -, ⟨heq, -⟩ | ⟨-, _, row, _, hr, rfl, -⟩⟩ := putRotationRecord_eq_ok hput
    · exact heq
    · simp [accepted, hp, (insert_eq_some.mp hr.rotations).1] at hn
  | insert | admission | sweepExpired | putPolicy => exact hputs.elim

/-- Over every run of calls the records accepted at an address advance under one commitment
until one rotation ends them, a repeated record changes nothing, and a rotation that was
stored is read back after whatever follows. -/
theorem agent_and_rotation_history (hjson : RoundTrips ctx.json) (calls : List (ℕ × StoreOp H)) :
    let store := ((LoftStore.fresh : LoftStore H).history ctx calls).1
    ((LoftStore.fresh : LoftStore H).history ctx calls).2.Pairwise (Follows H) ∧
      (∀ capacity op store', PutsRecord op → store.execute ctx capacity op = .ok store' →
        store.accepted ctx op = [] → store' = store) ∧
      ∀ capacity text record now store',
        store.putRotationRecord ctx text record now capacity = .ok (store', true) →
        ∀ later, (store'.history ctx later).1.rotationRecord ctx text = .ok (some record) := by
  intro store
  have hr := Recorded.fresh.history (H := H) hjson calls
  rw [nil_append] at hr
  refine ⟨hr.follows, fun capacity op store' => eq_of_accepted_nil, ?_⟩
  intro capacity text record now store' hput later
  obtain ⟨address, hp, -, ⟨-, hs, -⟩ | ⟨-, _, row, _, hputs, rfl, -⟩⟩ :=
    putRotationRecord_eq_ok hput
  · cases hs
  · have hn : store.accepted ctx (.putRotationRecord text record now) =
        [.rotation row.fromAddress record] := by
      simp [accepted, hp, (insert_eq_some.mp hputs.rotations).1]
    refine ((hr.putRotationRecord hjson hput).history hjson later).rotationRecord hjson
      hp (mem_append_left _ (mem_append_right _ ?_))
    rw [hn]
    exact mem_singleton_self _

noncomputable def sampleStore : LoftStore ByteHash :=
  ((LoftStore.fresh : LoftStore ByteHash).history SampleLoft.ctx
    [(100000, .putAgentRecord SampleLoft.address.text SampleLoft.agent 1)]).1

/-- The agent rotates, and neither its next record nor a sweep changes what is read. -/
theorem agent_and_rotation_history_sample :
    ∃ store', sampleStore.putRotationRecord SampleLoft.ctx SampleLoft.address.text
        SampleLoft.rotation 1000 100000 = .ok (store', true) ∧
      (store'.history SampleLoft.ctx
        [(100000, .putAgentRecord SampleLoft.address.text { SampleLoft.agent with seq := 9 } 2),
          (100000, .sweepExpired 5000 10)]).1.rotationRecord SampleLoft.ctx
        SampleLoft.address.text = .ok (some SampleLoft.rotation) := by
  have hs : (sampleStore.putRotationRecord SampleLoft.ctx SampleLoft.address.text
      SampleLoft.rotation 1000 100000).map Prod.snd = .ok true := by decide +kernel
  obtain ⟨⟨store', stored⟩, hp, rfl⟩ := map_eq_ok.mp hs
  exact ⟨store', hp, (agent_and_rotation_history roundTrips_sample
    [(100000, .putAgentRecord SampleLoft.address.text SampleLoft.agent 1)]).2.2 _ _ _ _ _ hp _⟩

end LoftStore

end Pigeonpost
