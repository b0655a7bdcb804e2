import Pigeonpost.Verification.Loft.Writes
import Pigeonpost.Verification.Shared.SampleLoft

/-! # Storage accounting of a loft

The counters are the sums over the rows, the shares are kept, and a reservation waits for
the rotation of every agent. -/

namespace Pigeonpost

open Loft KeyedTable SampleLoft List

namespace LoftStore

variable {H : Type}

/-- Every row is charged for its text, its identifiers and the overhead. -/
structure Charged (store : LoftStore H) : Prop where
  events : ∀ row ∈ store.events.rows, row.size = row.blob.length + eventStorageOverhead
  policies : ∀ row ∈ store.policies.rows,
    row.accountedSize = row.policy.length + 32 + controlStorageOverhead
  agents : ∀ row ∈ store.agents.rows, row.accountedSize =
    row.record.length + row.address.text.length + controlStorageOverhead
  rotations : ∀ row ∈ store.rotations.rows, row.accountedSize = row.record.length +
    (row.fromAddress.text.length + row.toAddress.text.length) + controlStorageOverhead

def controlTotal (store : LoftStore H) : ℕ :=
  store.policies.total PolicyRow.accountedSize + store.agents.total AgentRow.accountedSize +
    store.rotations.total RotationRow.accountedSize

/-- The counters are the sums over the rows. -/
structure Balanced (store : LoftStore H) : Prop where
  bytesUsed : store.stats.bytesUsed = store.events.total EventRow.size
  eventCount : store.stats.eventCount = store.events.rows.length
  controlBytes : store.stats.controlBytes = store.controlTotal
  controlReserved : store.stats.controlReserved = store.agents.total AgentRow.rotationReservation

/-- The control rows with their reservations keep to their share, and everything to the
capacity. -/
structure Fits (capacity : ℕ) (store : LoftStore H) : Prop where
  share : store.stats.controlBytes + store.stats.controlReserved ≤ controlCapacityBytes capacity
  total : store.stats.bytesUsed + (store.stats.controlBytes + store.stats.controlReserved) ≤
    capacity

/-- The reservation of an agent stands until its rotation is stored. -/
def Reserves (store : LoftStore H) : Prop :=
  ∀ row ∈ store.agents.rows, store.rotations.lookup row.address = none →
    row.rotationReservation = rotationStorageReservation

/-! ## One write -/

variable {capacity : ℕ} {store store' : LoftStore H}

theorem Charged.writes (hc : store.Charged) (h : Writes capacity store store') :
    store'.Charged := by
  cases h with
  | nothing heq => exact heq ▸ hc
  | event _ ha =>
    refine ⟨fun x hx => ?_, ha.policies ▸ hc.policies,
      ha.agents ▸ hc.agents, ha.rotations ▸ hc.rotations⟩
    obtain hx | rfl := (mem_insert ha.events).mp hx
    · exact hc.events x hx
    · exact ha.size
  | sweep _ hs =>
    refine ⟨fun x hx => ?_, hs.policies ▸ hc.policies,
      hs.agents ▸ hc.agents, hs.rotations ▸ hc.rotations⟩
    rw [hs.events] at hx
    exact hc.events x (mem_of_mem_filter hx)
  | policy _ hp =>
    refine ⟨hp.events ▸ hc.events, fun x hx => ?_, hp.agents ▸ hc.agents,
      hp.rotations ▸ hc.rotations⟩
    rw [hp.policies] at hx
    obtain rfl | ⟨hx, -⟩ := mem_put.mp hx
    · exact hp.size
    · exact hc.policies x hx
  | agent _ hp =>
    refine ⟨hp.events ▸ hc.events, hp.policies ▸ hc.policies,
      fun x hx => ?_, hp.rotations ▸ hc.rotations⟩
    rw [hp.agents] at hx
    obtain rfl | ⟨hx, -⟩ := mem_put.mp hx
    · exact hp.size
    · exact hc.agents x hx
  | rotation agent _ hp =>
    refine ⟨hp.events ▸ hc.events, hp.policies ▸ hc.policies, fun x hx => ?_, fun x hx => ?_⟩
    · rw [hp.agents] at hx
      obtain rfl | ⟨hx, -⟩ := mem_put.mp hx
      · exact hc.agents agent (lookup_eq_some.mp hp.source).1
      · exact hc.agents x hx
    · obtain hx | rfl := (mem_insert hp.rotations).mp hx
      · exact hc.rotations x hx
      · exact hp.size

/-- A put that changes what is accounted as its charge says. -/
theorem Balanced.charges {oldAccounted newAccounted oldReserved newReserved : ℕ}
    (hb : store.Balanced) (hc : Charges capacity store.stats store'.stats oldAccounted
      newAccounted oldReserved newReserved) (he : store'.events = store.events)
    (ha : store'.controlTotal + oldAccounted = store.controlTotal + newAccounted)
    (hk : store'.agents.total AgentRow.rotationReservation + oldReserved =
      store.agents.total AgentRow.rotationReservation + newReserved) : store'.Balanced := by
  obtain ⟨hu, hcount, hcon, hr⟩ := hb
  have hcha := hc.control
  have hres := hc.reserved
  refine ⟨?_, ?_, by omega, by omega⟩
  · rw [hc.bytesUsed, he, hu]
  · rw [hc.eventCount, he, hcount]

theorem Balanced.writes (hb : store.Balanced) (h : Writes capacity store store') :
    store'.Balanced := by
  have ⟨hu, hcount, hc, hr⟩ := hb
  cases h with
  | nothing heq => exact heq ▸ hb
  | event _ ha =>
    have hsize := total_insert ha.events EventRow.size
    have hrows := congrArg length (insert_eq_some.mp ha.events).2
    refine ⟨?_, ?_, ?_, ?_⟩
    · rw [ha.stats, hsize, hu]
    · rw [ha.stats, hrows, hcount, length_append, length_singleton]
    · rw [ha.stats, controlTotal, ha.policies, ha.agents, ha.rotations]
      exact hc
    · rw [ha.stats, ha.agents]
      exact hr
  | sweep swept hs =>
    have hsize := total_delete_picked hs.mem hs.nodup EventRow.size
    have hrows : store'.events.rows.length + swept.length = store.events.rows.length := by
      have ho := total_delete_picked hs.mem hs.nodup fun _ => 1
      rw [← hs.events] at ho
      simpa [KeyedTable.total] using ho
    rw [← hs.events] at hsize
    refine ⟨?_, ?_, ?_, ?_⟩
    · rw [hs.stats]
      dsimp only
      omega
    · rw [hs.stats]
      dsimp only
      omega
    · rw [hs.stats, controlTotal, hs.policies, hs.agents, hs.rotations]
      exact hc
    · rw [hs.stats, hs.agents]
      exact hr
  | policy row hp =>
    have hsize := store.policies.total_put row PolicyRow.accountedSize
    refine hb.charges hp.charges hp.events ?_ (by rw [hp.agents])
    rw [controlTotal, controlTotal, hp.policies, hp.agents, hp.rotations]
    omega
  | agent row hp =>
    have hsize := store.agents.total_put row AgentRow.accountedSize
    refine hb.charges hp.charges hp.events ?_ ?_
    · rw [controlTotal, controlTotal, hp.policies, hp.agents, hp.rotations]
      omega
    · rw [hp.agents]
      exact store.agents.total_put row AgentRow.rotationReservation
  | rotation agent row hp =>
    -- the agent's row stays, without its reservation
    have hl : store.agents.lookup { agent with rotationReservation := 0 }.address = some agent := by
      rw [key_of_lookup hp.source]
      exact hp.source
    have hage := total_put_of_lookup hl AgentRow.accountedSize
    have hsize := total_insert hp.rotations RotationRow.accountedSize
    refine hb.charges hp.charges hp.events ?_ ?_
    · rw [controlTotal, controlTotal, hp.policies, hp.agents, hsize]
      dsimp only at hage
      omega
    · rw [hp.agents]
      exact total_put_of_lookup hl AgentRow.rotationReservation

theorem Fits.writes (hf : store.Fits capacity) (h : Writes capacity store store') :
    store'.Fits capacity := by
  cases h with
  | nothing heq => exact heq ▸ hf
  | event _ ha =>
    have hr := ha.room
    refine ⟨?_, ?_⟩
    · rw [ha.stats]
      exact hf.share
    · rw [ha.stats]
      dsimp only
      omega
  | sweep _ hs =>
    have ht := hf.total
    refine ⟨?_, ?_⟩
    · rw [hs.stats]
      exact hf.share
    · rw [hs.stats]
      dsimp only
      omega
  | policy _ hp | agent _ hp | rotation _ _ hp =>
    exact ⟨hp.charges.share, hp.charges.total⟩

theorem Reserves.writes (hr : store.Reserves) (h : Writes capacity store store') :
    store'.Reserves := by
  cases h with
  | nothing heq => exact heq ▸ hr
  | event _ ha | sweep _ ha | policy _ ha =>
    intro x
    rw [ha.agents, ha.rotations]
    exact hr x
  | agent _ hp =>
    intro x hx hn
    rw [hp.agents] at hx
    rw [hp.rotations] at hn
    obtain rfl | ⟨hx, -⟩ := mem_put.mp hx
    · rw [hp.reservation]
      cases hold : store.agents.lookup x.address with
      | none => rfl
      | some old =>
        obtain ⟨hm, hk⟩ := lookup_eq_some.mp hold
        exact hr old hm (hk ▸ hn)
    · exact hr x hx hn
  | rotation _ row hp =>
    intro x hx hn
    rw [lookup_insert hp.rotations] at hn
    by_cases hs : row.fromAddress = x.address
    · rw [if_pos hs] at hn
      cases hn
    · rw [if_neg hs] at hn
      rw [hp.agents] at hx
      obtain rfl | ⟨hx, -⟩ := mem_put.mp hx
      · exact absurd (key_of_lookup hp.source).symm hs
      · exact hr x hx hn

/-! ## Whole runs -/

/-- Everything the accounting keeps. -/
structure Accounts (capacity : ℕ) (store : LoftStore H) : Prop where
  charged : store.Charged
  balanced : store.Balanced
  fits : store.Fits capacity
  reserves : store.Reserves

theorem Accounts.fresh : (fresh : LoftStore H).Accounts capacity where
  charged := ⟨(nofun), (nofun), (nofun),
    (nofun)⟩
  balanced := ⟨rfl, rfl, rfl, rfl⟩
  fits := ⟨Nat.zero_le _, Nat.zero_le _⟩
  reserves := nofun

variable [Sha256 H] [HashBytes H] [DecidableEq H]

theorem Accounts.step {ctx : LoftContext} (h : store.Accounts capacity) (op : StoreOp H) :
    (store.step ctx capacity op).Accounts capacity := by
  have hw := writes_step ctx capacity store op
  exact ⟨h.charged.writes hw, h.balanced.writes hw, h.fits.writes hw, h.reserves.writes hw⟩

theorem Accounts.run (ctx : LoftContext) (capacity : ℕ) (ops : List (StoreOp H)) :
    ((LoftStore.fresh : LoftStore H).run ctx capacity ops).Accounts capacity :=
  run_invariant ctx capacity (fun _ op h => h.step op) .fresh ops

omit [Sha256 H] [HashBytes H] [DecidableEq H] in
theorem insertRotation_ne_atCapacity {row : RotationRow} :
    store.insertRotation row ≠ .error .atCapacity := by
  intro h
  simp only [insertRotation, guard_bind_eq_error, okOr_eq_error, reduceCtorEq, and_false,
    or_false] at h

omit [DecidableEq H] in
/-- The reservation of an agent is room enough for its rotation. -/
theorem putRotationRecord_ne_atCapacity {ctx : LoftContext} (hlimit : capacity < u64Limit)
    (h : store.Accounts capacity) {text : Bytes} {address : Address}
    (hp : Address.parse text = .ok address) (ha : store.agents.lookup address ≠ none)
    (hn : store.rotations.lookup address = none) (record : RotationRecord) (now : ℕ) :
    store.putRotationRecord ctx text record now capacity ≠ .error .atCapacity := by
  obtain ⟨agent, hl⟩ := Option.ne_none_iff_exists'.mp ha
  obtain ⟨hm, hk⟩ := lookup_eq_some.mp hl
  have hres := h.reserves agent hm (hk ▸ hn)
  intro hr
  simp only [putRotationRecord, accountedSize, hp, bind_eq_error, mapError_eq_error,
    mapError_eq_ok, okOr_eq_error, reduceCtorEq, and_false, exists_false, false_or] at hr
  obtain ⟨_, ⟨⟩, -, -, target, -, newAccounted, hs, hr⟩ := hr
  simp only [hn, hl, okOr_some, ok_bind, bind_eq_error, mapError_eq_error, mapError_eq_ok,
    okOr_eq_error, guard_bind_eq_error, Loft.toI64_ne_atCapacity, insertRotation_ne_atCapacity,
    pure_ne_error, reduceCtorEq, and_false, exists_false, false_or, or_false, and_true]
    at hr
  have hnew : newAccounted ≤ 1423 := by
    have hj := record.length_toJson_le
    have hb := accountedSize_eq_ok hs
    rw [address.length_text, target.length_text] at hb
    unfold controlStorageOverhead at hb
    omega
  have hroom : rotationStorageReservation = 4096 := rfl
  rw [hres] at hr
  obtain hz | ⟨-, -, -, -, -, -, -, hc⟩ := hr
  · omega
  · exact replaceControlCharge_ne_atCapacity hlimit h.fits.share h.fits.total (by omega) hc

/-- After every run with one capacity the counters are the sums over the rows, the shares
are kept, and no agent is left without room for its rotation. -/
theorem storage_accounting (ctx : LoftContext) (capacity : UInt64) (ops : List (StoreOp H)) :
    let store := (LoftStore.fresh : LoftStore H).run ctx capacity.toNat ops
    store.Charged ∧ store.Balanced ∧ store.Fits capacity.toNat ∧
      ∀ text address, Address.parse text = .ok address → store.agents.lookup address ≠ none →
        store.rotations.lookup address = none → ∀ record now,
          store.putRotationRecord ctx text record now capacity.toNat ≠ .error .atCapacity := by
  intro store
  have ha := Accounts.run ctx capacity.toNat ops
  have hl : capacity.toNat < u64Limit := capacity.toNat_lt
  refine ⟨ha.charged, ha.balanced, ha.fits, ?_⟩
  intro text address hp hagent hn record now
  exact putRotationRecord_ne_atCapacity hl ha hp hagent hn record now

/-- The first agent with its reservation leaves too little of the share for a rotation beside
it, and the rotation still finds its room. -/
theorem storage_accounting_first_agent :
    let store := (LoftStore.fresh : LoftStore ByteHash).run ctx 100000
      [.putAgentRecord address.text agent 1]
    controlCapacityBytes 100000 < store.stats.controlBytes + store.stats.controlReserved +
        rotation.toJson.length ∧
      store.putRotationRecord ctx address.text rotation 1000 100000 ≠ .error .atCapacity :=
  ⟨by decide +kernel, (storage_accounting ctx 100000 [.putAgentRecord address.text agent 1]).2.2.2
      address.text address (by decide +kernel) (by decide +kernel)
      (by decide +kernel) rotation 1000⟩

end LoftStore

end Pigeonpost
