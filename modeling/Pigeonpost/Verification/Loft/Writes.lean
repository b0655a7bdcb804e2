import Pigeonpost.Library.Machine
import Pigeonpost.Program.Loft.Store

/-! # What the operations of a loft store write

One description for each operation of the rows and counters it leaves. What holds of the
store is proved from these. -/

namespace Pigeonpost

open Loft

variable {H : Type} {store store' : LoftStore H} {ctx : LoftContext}
  {capacity now n storedAt expiresAt oldAccounted newAccounted oldReserved newReserved : ℕ}
  {stored : Bool} {stats : StorageStats}

/-- The writing operations with their arguments and clock readings. -/
inductive StoreOp (H : Type) where
  | insert (wrap : Wrap) (id : H) (storedAt expiresAt : ℕ) (expected : Option UInt64)
  | admission (wrap : Wrap) (id : H) (storedAt expiresAt : ℕ) (expectedPolicySeq : Option UInt64)
  | sweepExpired (now batch : ℕ)
  | putPolicy (policy : RecipientPolicy) (now : ℕ)
  | putAgentRecord (address : Bytes) (record : AgentRecord) (now : ℕ)
  | putRotationRecord (address : Bytes) (record : RotationRecord) (now : ℕ)

/-! ## Counters -/

theorem Loft.toI64_eq_ok {value : ℕ} : toI64 value = .ok n ↔ value ≤ i64Max ∧ value = n := by
  unfold toI64
  split <;> simp_all

theorem Loft.toI64_ne_atCapacity {value : ℕ} : toI64 value ≠ .error .atCapacity := by
  unfold toI64
  split <;> simp

theorem Loft.checkedAdd_eq_some {a b : ℕ} :
    checkedAdd a b = some n ↔ a + b < u64Limit ∧ a + b = n := by
  unfold checkedAdd
  split <;> simp_all

theorem Loft.checkedSub_eq_some {a b : ℕ} : checkedSub a b = some n ↔ b ≤ a ∧ a - b = n := by
  unfold checkedSub
  split <;> simp_all

theorem Loft.accountedSize_eq_ok {blobLen identifierBytes : ℕ}
    (h : accountedSize blobLen identifierBytes = .ok n) :
    n = blobLen + identifierBytes + controlStorageOverhead := by
  simp only [accountedSize, ok_iff, Option.bind_eq_some_iff, checkedAdd_eq_some] at h
  obtain ⟨sum, ⟨-, rfl⟩, -, rfl⟩ := h
  rfl

/-- The counters after a control row takes the place of another. -/
structure Charges (capacity : ℕ) (stats stats' : StorageStats)
    (oldAccounted newAccounted oldReserved newReserved : ℕ) : Prop where
  control : stats'.controlBytes + oldAccounted = stats.controlBytes + newAccounted
  reserved : stats'.controlReserved + oldReserved = stats.controlReserved + newReserved
  bytesUsed : stats'.bytesUsed = stats.bytesUsed
  eventCount : stats'.eventCount = stats.eventCount
  share : stats'.controlBytes + stats'.controlReserved ≤ controlCapacityBytes capacity
  total : stats'.bytesUsed + (stats'.controlBytes + stats'.controlReserved) ≤ capacity

theorem charges_of_replaceControlCharge {stats' : StorageStats}
    (h : replaceControlCharge stats capacity oldAccounted newAccounted oldReserved newReserved =
      .ok stats') :
    Charges capacity stats stats' oldAccounted newAccounted oldReserved newReserved := by
  simp only [replaceControlCharge, ok_iff, Option.bind_eq_some_iff, checkedSub_eq_some,
    checkedAdd_eq_some, toI64_eq_ok] at h
  obtain ⟨control, ⟨_, ⟨hc, rfl⟩, -, rfl⟩, reserved, ⟨_, ⟨hr, rfl⟩, -, rfl⟩,
    _, ⟨-, rfl⟩, hroom, _, ⟨-, rfl⟩, _, ⟨-, rfl⟩, rfl⟩ := h
  rw [not_or, not_lt] at hroom
  obtain ⟨hs, ht⟩ := hroom
  have hf : stats.bytesUsed + (stats.controlBytes - oldAccounted + newAccounted +
      (stats.controlReserved - oldReserved + newReserved)) ≤ capacity := by
    unfold checkedAdd at ht
    split at ht
    · simpa using ht
    · simp at ht
  exact ⟨by dsimp only; omega, by dsimp only; omega, rfl, rfl, hs, hf⟩

theorem replaceControlCharge_ne_atCapacity (hl : capacity < u64Limit)
    (hs : stats.controlBytes + stats.controlReserved ≤ controlCapacityBytes capacity)
    (ht : stats.bytesUsed + (stats.controlBytes + stats.controlReserved) ≤ capacity)
    (hg : newAccounted + newReserved ≤ oldAccounted + oldReserved) :
    replaceControlCharge stats capacity oldAccounted newAccounted oldReserved newReserved ≠
      .error .atCapacity := by
  intro h
  simp only [replaceControlCharge, bind_eq_error, guard_bind_eq_error, okOr_eq_error,
    toI64_ne_atCapacity, pure_ne_error, reduceCtorEq, and_false, false_or, exists_false, or_false,
    and_true, ok_iff, Option.bind_eq_some_iff, checkedSub_eq_some, checkedAdd_eq_some] at h
  obtain ⟨control, ⟨_, ⟨hc, rfl⟩, -, rfl⟩, reserved, ⟨_, ⟨hr, rfl⟩, -, rfl⟩,
    _, ⟨-, rfl⟩, ho | ho⟩ := h
  · omega
  · rw [checkedAdd, if_pos (by omega), Option.all_some, decide_eq_true_iff] at ho
    omega

namespace LoftStore

/-! ## Events -/

/-- One more event. -/
structure Appends (capacity : ℕ) (store store' : LoftStore H) (row : EventRow H) : Prop where
  cursor_le : row.cursor ≤ i64Max
  size : row.size = row.blob.length + eventStorageOverhead
  room : store.stats.bytesUsed + (store.stats.controlBytes + store.stats.controlReserved) +
    row.size ≤ capacity
  events : store.events.insert row = some store'.events
  policies : store'.policies = store.policies
  agents : store'.agents = store.agents
  rotations : store'.rotations = store.rotations
  stats : store'.stats = { store.stats with
    bytesUsed := store.stats.bytesUsed + row.size
    eventCount := store.stats.eventCount + 1 }

/-- Some events are gone, and their charge with them. -/
structure Sweeps (store store' : LoftStore H) (swept : List (EventRow H)) : Prop where
  mem : ∀ row ∈ swept, row ∈ store.events.rows
  nodup : swept.Nodup
  events : store'.events =
    store.events.delete fun row => swept.any fun old => old.cursor = row.cursor
  policies : store'.policies = store.policies
  agents : store'.agents = store.agents
  rotations : store'.rotations = store.rotations
  stats : store'.stats = { store.stats with
    bytesUsed := store.stats.bytesUsed - (swept.map EventRow.size).sum
    eventCount := store.stats.eventCount - swept.length }

theorem sweepExpired_eq_ok {batch count : ℕ}
    (h : store.sweepExpired now batch = .ok (store', count)) :
    store' = store ∨ ∃ swept, Sweeps store store' swept := by
  unfold sweepExpired at h
  by_cases hb : batch = 0
  · rw [if_pos hb] at h
    cases h
    exact .inl rfl
  · simp only [if_neg hb, ok_iff, toI64_eq_ok] at h
    obtain ⟨_, ⟨-, rfl⟩, _, ⟨-, rfl⟩, -, h⟩ := h
    by_cases hnone : (store.expired now batch).length = 0
    · rw [if_pos hnone, pure_eq_ok] at h
      cases h
      exact .inl rfl
    · simp only [if_neg hnone, ok_iff] at h
      obtain ⟨-, -, h⟩ := h
      cases h
      have hs := List.mergeSort_perm (store.events.rows.filter fun row => row.expiresAt ≤ now)
        fun a b => a.expiresAt ≤ b.expiresAt
      have hm : ∀ row ∈ store.expired now batch, row ∈ store.events.rows := fun row hr =>
        List.mem_of_mem_filter (hs.mem_iff.mp (List.mem_of_mem_take hr))
      have hn : (store.expired now batch).Nodup :=
        (hs.nodup_iff.mpr (store.events.nodup.of_map.filter _)).take
      exact .inr ⟨store.expired now batch, hm, hn, rfl, rfl, rfl, rfl, rfl⟩

/-! ## Control rows -/

/-- A new or replaced policy. -/
structure PutsPolicy (capacity : ℕ) (store store' : LoftStore H) (row : PolicyRow) : Prop where
  size : row.accountedSize = row.policy.length + 32 + controlStorageOverhead
  charges : Charges capacity store.stats store'.stats
    (((store.policies.lookup row.pubkey).map PolicyRow.accountedSize).getD 0) row.accountedSize 0 0
  policies : store'.policies = store.policies.put row
  events : store'.events = store.events
  agents : store'.agents = store.agents
  rotations : store'.rotations = store.rotations

theorem putPolicy_eq_ok {policy : RecipientPolicy}
    (h : store.putPolicy ctx policy capacity now = .ok store') :
    store' = store ∨ ∃ row, PutsPolicy capacity store store' row := by
  simp only [putPolicy, ok_iff] at h
  obtain ⟨-, newAccounted, hsize, h⟩ := h
  by_cases hsame : ((store.policies.lookup policy.pubkey).any fun row =>
      row.policy = ctx.json.policy policy) = true
  · rw [if_pos hsame, pure_eq_ok] at h
    exact .inl h.symm
  · simp only [if_neg hsame, ok_iff, toI64_eq_ok] at h
    obtain ⟨-, -, -, -, stats, hs, seq, -, updatedAt, -, _, ⟨-, rfl⟩, rfl⟩ := h
    exact .inr ⟨⟨policy.pubkey, seq, ctx.json.policy policy, policy.version, updatedAt,
      newAccounted⟩, accountedSize_eq_ok hsize, charges_of_replaceControlCharge hs,
      rfl, rfl, rfl, rfl⟩

/-- A new or replaced agent record. -/
structure PutsAgent (capacity : ℕ) (store store' : LoftStore H) (row : AgentRow) : Prop where
  size : row.accountedSize = row.record.length + row.address.text.length + controlStorageOverhead
  reservation : row.rotationReservation =
    ((store.agents.lookup row.address).map AgentRow.rotationReservation).getD
      rotationStorageReservation
  charges : Charges capacity store.stats store'.stats
    (((store.agents.lookup row.address).map AgentRow.accountedSize).getD 0) row.accountedSize
    (((store.agents.lookup row.address).map AgentRow.rotationReservation).getD 0)
    row.rotationReservation
  agents : store'.agents = store.agents.put row
  events : store'.events = store.events
  policies : store'.policies = store.policies
  rotations : store'.rotations = store.rotations

/-- A rotation takes the room its agent's reservation kept. -/
structure PutsRotation (capacity : ℕ) (store store' : LoftStore H) (agent : AgentRow)
    (row : RotationRow) : Prop where
  source : store.agents.lookup row.fromAddress = some agent
  size : row.accountedSize = row.record.length +
    (row.fromAddress.text.length + row.toAddress.text.length) + controlStorageOverhead
  charges : Charges capacity store.stats store'.stats 0 row.accountedSize
    agent.rotationReservation 0
  agents : store'.agents = store.agents.put { agent with rotationReservation := 0 }
  rotations : store.rotations.insert row = some store'.rotations
  events : store'.events = store.events
  policies : store'.policies = store.policies

/-- Every write of every operation. -/
inductive Writes (capacity : ℕ) (store store' : LoftStore H) : Prop
  | nothing : store' = store → Writes capacity store store'
  | event (row : EventRow H) : Appends capacity store store' row → Writes capacity store store'
  | sweep (swept : List (EventRow H)) : Sweeps store store' swept → Writes capacity store store'
  | policy (row : PolicyRow) : PutsPolicy capacity store store' row →
    Writes capacity store store'
  | agent (row : AgentRow) : PutsAgent capacity store store' row → Writes capacity store store'
  | rotation (agent : AgentRow) (row : RotationRow) :
    PutsRotation capacity store store' agent row → Writes capacity store store'

section Records

variable [Sha256 H] [HashBytes H] {record : AgentRecord} {text : Bytes}

theorem ensureAdvances_eq_ok {address : Address} {old : AgentRow}
    (h : store.ensureAdvances ctx address record old = .ok ()) :
    store.rotations.lookup address = none ∧ ∃ prior, ctx.json.readAgent old.record = some prior ∧
      prior.successorHash = record.successorHash ∧ prior.seq < record.seq := by
  simp only [ensureAdvances, ok_iff] at h
  obtain ⟨hn, prior, hr, -, -, hh, hs, -⟩ := h
  exact ⟨by simpa using hn, prior, hr, not_not.mp hh, UInt64.not_le.mp hs⟩

theorem putAgentRecord_eq_ok (h : store.putAgentRecord ctx text record capacity now = .ok store') :
    ∃ address, Address.parse text = .ok address ∧ record.verify H ctx.prim address = .ok () ∧
      (store' = store ∧ (∃ row, store.agents.lookup address = some row ∧
          row.record = ctx.json.agent record) ∨
        ∃ row, PutsAgent capacity store store' row ∧ row.address = address ∧
          row.seq = record.seq.toNat ∧ row.record = ctx.json.agent record ∧
          ∀ old, store.agents.lookup address = some old →
            old.record ≠ ctx.json.agent record ∧ old.seq < row.seq ∧
              store.ensureAdvances ctx address record old = .ok ()) := by
  simp only [putAgentRecord, ok_iff] at h
  obtain ⟨address, hp, -, _, hv, newAccounted, hsize, h⟩ := h
  refine ⟨address, hp, hv, ?_⟩
  by_cases hsame : ((store.agents.lookup address).any fun row =>
      row.record = ctx.json.agent record) = true
  · rw [if_pos hsame, pure_eq_ok] at h
    exact .inl ⟨h.symm, by simpa [Option.any_eq_true] using hsame⟩
  · simp only [if_neg hsame] at h
    cases hold : store.agents.lookup address with
    | none =>
      simp only [hold, ok_iff, toI64_eq_ok, upsertAgent, Option.map_none, Option.getD_none,
        Option.isSome_none] at h
      obtain ⟨stats, hs, _, ⟨-, rfl⟩, updatedAt, -, _, ⟨-, rfl⟩, _, ⟨-, rfl⟩, agents, ha, rfl⟩ := h
      cases ha
      refine .inr ⟨⟨address, record.seq.toNat, ctx.json.agent record, updatedAt, newAccounted,
        rotationStorageReservation⟩, ⟨accountedSize_eq_ok hsize, ?_, ?_, rfl, rfl, rfl, rfl⟩,
        rfl, rfl, rfl, fun old hsome => by cases hsome⟩
      · simp [hold]
      · simpa [hold] using charges_of_replaceControlCharge hs
    | some old =>
      simp only [hold, ok_iff, toI64_eq_ok, upsertAgent, Option.map_some, Option.getD_some,
        Option.isSome_some, if_true] at h
      obtain ⟨_, hadv, stats, hs, _, ⟨-, rfl⟩, updatedAt, -, _, ⟨-, rfl⟩, _, ⟨-, rfl⟩,
        agents, ha, rfl⟩ := h
      by_cases hseq : old.seq < record.seq.toNat
      · rw [if_pos hseq] at ha
        cases ha
        refine .inr ⟨⟨address, record.seq.toNat, ctx.json.agent record, updatedAt, newAccounted,
          old.rotationReservation⟩, ⟨accountedSize_eq_ok hsize, ?_, ?_, rfl, rfl, rfl, rfl⟩,
          rfl, rfl, rfl, ?_⟩
        · simp [hold]
        · simpa [hold] using charges_of_replaceControlCharge hs
        · intro old' hsome
          cases hsome
          exact ⟨by simpa [hold] using hsame, hseq, hadv⟩
      · rw [if_neg hseq] at ha
        cases ha

theorem putRotationRecord_eq_ok {record : RotationRecord}
    (h : store.putRotationRecord ctx text record now capacity = .ok (store', stored)) :
    ∃ address, Address.parse text = .ok address ∧
      record.verifySourceAddress H ctx.prim address = .ok () ∧
      (store' = store ∧ stored = false ∧
          (∃ row, store.rotations.lookup address = some row ∧ row.record = record.toJson) ∨
        stored = true ∧ ∃ agentRow row agent, PutsRotation capacity store store' agentRow row ∧
          row.fromAddress = address ∧ row.record = record.toJson ∧
          ctx.json.readAgent agentRow.record = some agent ∧
          agent.verify H ctx.prim address = .ok () ∧
          record.verify H ctx.prim agent.successorHash agent.seq now = .ok ()) := by
  simp only [putRotationRecord, ok_iff] at h
  obtain ⟨address, hp, _, hs, target, -, newAccounted, hsize, h⟩ := h
  refine ⟨address, hp, hs, ?_⟩
  cases hold : store.rotations.lookup address with
  | some existing =>
    simp only [hold] at h
    by_cases hsame : existing.record = record.toJson
    · rw [if_pos hsame, pure_eq_ok] at h
      cases h
      exact .inl ⟨rfl, rfl, existing, rfl, hsame⟩
    · rw [if_neg hsame] at h
      exact absurd h throw_ne_ok
  | none =>
    simp only [hold, ok_iff, toI64_eq_ok, insertRotation] at h
    obtain ⟨agentRow, ha, -, agent, hread, _, hv, _, hr, stats, hstats, _, ⟨-, rfl⟩,
      _, ⟨-, rfl⟩, _, ⟨-, rfl⟩, _, ⟨-, rfl⟩, _, ⟨-, rfl⟩, rotations, ⟨-, -, hins⟩, h⟩ := h
    cases h
    refine .inr ⟨rfl, agentRow, _, agent, ⟨ha, accountedSize_eq_ok hsize,
      charges_of_replaceControlCharge hstats, ?_, hins, rfl, rfl⟩, rfl, rfl, hread,
      hv, hr⟩
    exact KeyedTable.modify_eq_put (by exact fun _ => rfl) ha

end Records

variable {expected : Option UInt64} {wrap : Wrap} {id : H}

section Insert

variable [DecidableEq H]

theorem insert_eq_ok
    (h : store.insert ctx wrap id storedAt expiresAt capacity expected = .ok (store', stored)) :
    ∃ blob, wrap.toJson ctx.json.attribution = some blob ∧
      (store' = store ∧ stored = false ∧ (∃ row ∈ store.events.rows, row.id = id) ∨
        stored = true ∧ (∀ row ∈ store.events.rows, row.id ≠ id) ∧
          ∃ row, Appends capacity store store' row ∧ row.id = id ∧
            row.recipient = wrap.recipient ∧ row.blob = blob ∧ row.expiresAt = expiresAt) := by
  simp only [LoftStore.insert, ok_iff] at h
  obtain ⟨blob, hblob, h⟩ := h
  refine ⟨blob, hblob, ?_⟩
  by_cases hs : (store.events.rows.any fun row => row.id = id) = true
  · rw [if_pos hs, pure_eq_ok] at h
    cases h
    exact .inl ⟨rfl, rfl, by simpa using hs⟩
  · simp only [if_neg hs, ok_iff, Option.bind_eq_some_iff, checkedAdd_eq_some, toI64_eq_ok,
      appendEvent] at h
    obtain ⟨-, -, -, used, ⟨_, ⟨-, rfl⟩, -, rfl⟩, hr, _, ⟨-, rfl⟩, _, ⟨-, rfl⟩, size, ⟨hsize, rfl⟩,
      _, ⟨hb, events, he, rfl⟩, h⟩ := h
    cases h
    rw [not_or, not_lt, not_lt] at hb
    have hm : min (blob.length + eventStorageOverhead) (u64Limit - 1) =
        blob.length + eventStorageOverhead := by
      unfold i64Max at hsize
      unfold u64Limit at hsize ⊢
      omega
    refine .inr ⟨rfl, by simpa using hs, _,
      ⟨hb.1, hm, ?_, he, rfl, rfl, rfl, rfl⟩, rfl, rfl, rfl, rfl⟩
    have hp : 0 < eventStorageOverhead := by decide
    dsimp only
    omega

theorem writes_of_insert
    (h : store.insert ctx wrap id storedAt expiresAt capacity expected = .ok (store', stored)) :
    Writes capacity store store' := by
  obtain ⟨-, -, ⟨heq, -⟩ | ⟨-, -, row, ha, -⟩⟩ := insert_eq_ok h
  · exact .nothing heq
  · exact .event row ha

end Insert

variable [Sha256 H] [HashBytes H] [DecidableEq H]

omit [HashBytes H] in
theorem admitEvent_eq_ok
    (h : store.admitEvent ctx wrap id storedAt expiresAt capacity expected = .ok (store', stored)) :
    id = wrap.id H ∧
      store.insert ctx wrap id storedAt expiresAt capacity expected = .ok (store', stored) := by
  simp only [admitEvent, ok_iff] at h
  obtain ⟨-, -, hid, hins⟩ := h
  exact ⟨not_not.mp hid, hins⟩

section Operations

/-! ## Operations -/

variable (ctx : LoftContext) (capacity : ℕ)

def execute (store : LoftStore H) : StoreOp H → Except LoftError (LoftStore H)
  | .insert wrap id storedAt expiresAt expected =>
    (store.insert ctx wrap id storedAt expiresAt capacity expected).map Prod.fst
  | .admission wrap id storedAt expiresAt expectedPolicySeq =>
    (store.admitEvent ctx wrap id storedAt expiresAt capacity expectedPolicySeq).map Prod.fst
  | .sweepExpired now batch => (store.sweepExpired now batch).map Prod.fst
  | .putPolicy policy now => store.putPolicy ctx policy capacity now
  | .putAgentRecord address record now => store.putAgentRecord ctx address record capacity now
  | .putRotationRecord address record now =>
    (store.putRotationRecord ctx address record now capacity).map Prod.fst

/-- A failed operation leaves the store as it was. -/
def step (store : LoftStore H) (op : StoreOp H) : LoftStore H :=
  match store.execute ctx capacity op with
  | .ok store' => store'
  | .error _ => store

def run (store : LoftStore H) (ops : List (StoreOp H)) : LoftStore H :=
  ops.foldl (step ctx capacity) store

theorem run_invariant {Inv : LoftStore H → Prop}
    (hstep : ∀ store op, Inv store → Inv (store.step ctx capacity op))
    (hs : Inv store) (ops : List (StoreOp H)) : Inv (store.run ctx capacity ops) := by
  induction ops generalizing store with
  | nil => exact hs
  | cons op _ ih => exact ih (hstep store op hs)

end Operations

theorem writes_step (ctx : LoftContext) (capacity : ℕ) (store : LoftStore H) (op : StoreOp H) :
    Writes capacity store (store.step ctx capacity op) := by
  unfold step
  cases h : store.execute ctx capacity op with
  | error => exact .nothing rfl
  | ok =>
    cases op with
    | insert =>
      obtain ⟨⟨_, stored⟩, hins, rfl⟩ := map_eq_ok.mp h
      exact writes_of_insert hins
    | admission =>
      obtain ⟨⟨_, stored⟩, ha, rfl⟩ := map_eq_ok.mp h
      exact writes_of_insert (admitEvent_eq_ok ha).2
    | sweepExpired =>
      obtain ⟨⟨_, count⟩, hsweep, rfl⟩ := map_eq_ok.mp h
      obtain heq | ⟨swept, hs⟩ := sweepExpired_eq_ok hsweep
      · exact .nothing heq
      · exact .sweep swept hs
    | putPolicy policy =>
      obtain heq | ⟨row, hp⟩ := putPolicy_eq_ok h
      · exact .nothing heq
      · exact .policy row hp
    | putAgentRecord =>
      obtain ⟨-, -, -, ⟨heq, -⟩ | ⟨row, hp, -⟩⟩ := putAgentRecord_eq_ok h
      · exact .nothing heq
      · exact .agent row hp
    | putRotationRecord =>
      obtain ⟨⟨_, stored⟩, hput, rfl⟩ := map_eq_ok.mp h
      obtain ⟨-, -, -, ⟨heq, -⟩ | ⟨-, agent, row, -, hp, -⟩⟩ := putRotationRecord_eq_ok hput
      · exact .nothing heq
      · exact .rotation agent row hp

end LoftStore

end Pigeonpost
