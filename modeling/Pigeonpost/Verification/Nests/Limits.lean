import Pigeonpost.Program.Nests

/-! # The limits of a Nest host

Storage is checked before a row is inserted, and slots are counted before a sandbox starts.
The limits hold while nobody else checks between an operation's check and its write. -/

namespace Pigeonpost.Nests

open KeyedTable Function List

variable {cfg : Config} {h : Host} {id : Bytes} {req : CreateNest} {nest row : Nest}

def Task.isBoot : Task → Bool
  | boot => true
  | _ => false

@[simp, grind =] theorem any_isBoot {task : Option Task} :
    task.any Task.isBoot = true ↔ task = some .boot := by
  rcases task with _ | (_ | _ | _) <;> simp [Task.isBoot]

namespace Host

/-- The Nests that have a slot, or a start of which counted on one. -/
def occupied (h : Host) : ℕ :=
  h.nests.count fun nest => nest.isResident || (h.tasks nest.id).any Task.isBoot

/-- What a host keeps to while its limits are checked one at a time. -/
structure Limited (cfg : Config) (h : Host) : Prop where
  storage : h.nests.total Nest.share ≤ cfg.maxTotalGib
  room : ∀ id req, h.tasks id = some (.insert req) →
    h.nests.total Nest.share + req.gib cfg ≤ cfg.maxTotalGib ∧
      (∀ other req, h.tasks other = some (.insert req) → other = id) ∧ req.nestId = id
  slots : h.occupied ≤ cfg.maxRunning
  kept : ∀ id, h.tasks id = some .provision ∨ h.tasks id = some .boot →
    ∃ nest, h.nests.lookup id = some nest ∧ nest.state ≠ .deleted

namespace Limited

section

variable (hin : Limited cfg h)

include hin

/-- An operation moves on without a write, to where it has checked what it needs. -/
theorem retask {task : Option Task} (hr : ∀ req, task = some (.insert req) →
      h.nests.total Nest.share + req.gib cfg ≤ cfg.maxTotalGib ∧
        (∀ other req, h.tasks other ≠ some (.insert req)) ∧ req.nestId = id)
    (hs : task = some .boot →
      h.residentBeside id < cfg.maxRunning ∧ ∀ other, h.tasks other ≠ some .boot)
    (hk : task = some .provision ∨ task = some .boot →
      ∃ nest, h.nests.lookup id = some nest ∧ nest.state ≠ .deleted) :
    Limited cfg { h with tasks := update h.tasks id task } := by
  refine ⟨hin.storage, ?_, ?_, ?_⟩
  · have hr' := hin.room
    grind [update_apply]
  · by_cases hb : task = some .boot
    · obtain ⟨hf, hn⟩ := hs hb
      refine (count_le_of_keys [id] fun row hm hc => ?_).trans hf
      by_cases heq : row.id = id
      · exact .inl (by simp [heq])
      · refine .inr ⟨row, hm, ?_, rfl⟩
        grind [update_apply]
    · refine (countP_mono_left fun row _ hc => ?_).trans hin.slots
      grind [update_apply]
  · have hk' := hin.kept
    grind [update_apply]

theorem reply (result : Except ApiError Unit) :
    Limited cfg (h.reply id result).1 := hin.retask (by simp) (by simp) (by simp)

/-- A row changes but for its share of the storage, and takes no slot it was not given. -/
theorem put (hr : h.nests.lookup row.id = some nest)
    (hs : row.share = nest.share) (hstate : row.state ≠ .deleted)
    (hslot : row.isResident = true → nest.isResident = true ∨ h.tasks row.id = some .boot) :
    Limited cfg { h with nests := h.nests.put row } := by
  have ht := total_put_of_lookup hr Nest.share
  rw [hs, Nat.add_right_cancel_iff] at ht
  refine ⟨ht ▸ hin.storage, ht ▸ hin.room, ?_, fun id hid => ?_⟩
  · refine (count_le_of_keys [] fun other ho hc => .inr ?_).trans hin.slots
    rcases mem_put.mp ho with rfl | ⟨hold, -⟩
    · obtain ⟨hm, hkey⟩ := lookup_eq_some.mp hr
      refine ⟨nest, hm, ?_, hkey⟩
      rw [Bool.or_eq_true] at hc ⊢
      rw [hkey]
      exact hc.elim (fun hr => (hslot hr).imp_right any_isBoot.mpr) .inr
    · exact ⟨other, hold, hc, rfl⟩
  · obtain ⟨kept, hk, ha⟩ := hin.kept id hid
    by_cases heq : id = row.id
    · exact ⟨row, heq ▸ lookup_put_self, hstate⟩
    · exact ⟨kept, (lookup_put_of_ne heq).trans hk, ha⟩

theorem setState {state : NestState}
    (hk : ∃ nest, h.nests.lookup id = some nest ∧ nest.state ≠ .deleted)
    (hs : state ≠ .deleted) (hslot : state = .running ∨ state = .paused → h.tasks id = some .boot) :
    Limited cfg (h.setState id state) := by
  obtain ⟨nest, hrow, hold⟩ := hk
  obtain rfl := key_of_lookup hrow
  rw [Host.setState, modify_eq_put _ hrow]
  refine hin.put hrow ?_ hs fun hr => .inr (hslot (of_decide_eq_true hr))
  simp [Nest.share, hold, hs]

/-- The row comes with the share that was kept for it. -/
theorem inserted {nests : KeyedTable Nest.id} (ht : h.tasks id = some (.insert req))
    (hins : h.nests.insert (req.row cfg) = some nests) :
    Limited cfg ⟨nests, update h.tasks id (some .provision)⟩ := by
  obtain ⟨hf, ha, rfl⟩ := hin.room id req ht
  have hl : ∀ other, nests.lookup other =
      if req.nestId = other then some (req.row cfg) else h.nests.lookup other :=
    fun other => lookup_insert hins
  refine ⟨?_, ?_, ?_, ?_⟩
  · rw [total_insert hins]
    exact hf
  · grind [update_apply]
  · rw [occupied, count_insert hins,
      if_neg (by simp [CreateNest.row, Nest.isResident, Task.isBoot])]
    refine (countP_mono_left fun row _ hc => ?_).trans hin.slots
    grind [update_apply]
  · have hk := hin.kept
    have hr : (req.row cfg).state = .provisioning := rfl
    grind [update_apply]

theorem startLocked {creating leased : Bool} (hn : ∀ other, h.tasks other ≠ some .boot) :
    Limited cfg (h.startLocked cfg id creating leased).1 := by
  unfold Host.startLocked
  split
  · exact hin.reply _
  · next nest hr =>
    split_ifs with hg hf hc
    · exact hin.reply _
    · exact (hin.setState ⟨nest, hr, (not_or.mp hg).1⟩ (by simp) (by simp)).reply _
    · exact hin.reply _
    · exact hin.reply _
    · exact hin.retask (by simp) (fun _ => ⟨Nat.not_le.mp hf, hn⟩) fun _ =>
        ⟨nest, hr, (not_or.mp hg).1⟩

end

end Limited

/-- Nobody else checks a limit between an operation's check of it and its write. -/
def Exclusive (h : Host) : Event → Prop
  | .create _ => ∀ other req, h.tasks other ≠ some (.insert req)
  | .start .. => ∀ other, h.tasks other ≠ some .boot
  | .advance id .. => h.tasks id = some .provision → ∀ other, h.tasks other ≠ some .boot

theorem Limited.step (hinv : Limited cfg h) {event : Event} (he : h.Exclusive event) :
    Limited cfg (step cfg h event).1 := by
  cases event with
  | create req =>
    dsimp only [Nests.step, Host.create]
    split
    · exact hinv
    split
    · exact hinv.reply _
    · split <;> exact hinv.reply _
    · split
      · exact hinv.reply _
      · next hf =>
        split
        · exact hinv.reply _
        refine hinv.retask (fun other ho => ?_) (by simp) (by simp)
        obtain rfl : req = other := by simpa using ho
        exact ⟨Nat.not_lt.mp hf, he, rfl⟩
  | start =>
    dsimp only [Nests.step, Host.start]
    split
    · exact hinv
    split
    · exact hinv.reply _
    split
    · exact hinv.reply _
    split_ifs
    · exact hinv.reply _
    · exact hinv.reply _
    · exact hinv.startLocked he
  | advance =>
    dsimp only [Nests.step, Host.advance]
    split
    · exact hinv
    · next ht =>
      split
      · exact hinv.reply _
      · next hins => exact hinv.inserted ht hins
    · next ht => exact hinv.startLocked (he ht)
    · next ht => exact (hinv.setState (hinv.kept _ (.inl ht)) (by simp) (by simp)).reply _
    · next ht => exact (hinv.setState (hinv.kept _ (.inr ht)) (by simp) fun _ => ht).reply _
    · next ht => exact (hinv.setState (hinv.kept _ (.inr ht)) (by simp) (by simp)).reply _

end Host

/-- From a host at rest and within its limits, every run keeps them in which nobody else checks
one between an operation's check and its write. -/
theorem limits_hold (cfg : Config) (h : Host) (hrest : ∀ id, h.tasks id = none)
    (hstorage : h.nests.total Nest.share ≤ cfg.maxTotalGib)
    (hrunning : h.nests.count Nest.isResident ≤ cfg.maxRunning) (events : List Event)
    (hexclusive : ∀ earlier event, earlier ++ [event] <+: events →
      (run cfg h earlier).1.Exclusive event) :
    (run cfg h events).1.nests.total Nest.share ≤ cfg.maxTotalGib ∧
      (run cfg h events).1.nests.count Nest.isResident ≤ cfg.maxRunning := by
  have hl : (run cfg h events).1.Limited cfg := by
    induction events using reverseRecOn with
    | nil =>
      refine ⟨hstorage, fun id => ?_, ?_, fun id => ?_⟩
      · simp [run, Machine.run, hrest]
      · simpa [run, Machine.run, Host.occupied, hrest] using hrunning
      · simp [run, Machine.run, hrest]
    | append_singleton events event ih =>
      rw [run, Machine.run_append_singleton]
      refine (ih fun earlier other he => ?_).step (hexclusive events event prefix_rfl)
      exact hexclusive earlier other (he.trans (prefix_append _ _))
  refine ⟨hl.storage, (countP_mono_left fun nest _ hn => ?_).trans hl.slots⟩
  rw [hn, Bool.true_or]

namespace Sample

/-- A host with room for one, and no Nest yet. -/
def config : Config := ⟨1, 1, 1⟩

def host : Host := ⟨.empty, fun _ => none⟩

def firstId : Bytes := ascii "nst_0000000000000000"

def secondId : Bytes := ascii "nst_1111111111111111"

def create (id : Bytes) : Event := .create ⟨id, ascii "account", ascii "/nest", ['n'],
  ascii "nenr_0123456789abcdef0123456789abcdef", none, none⟩

def next (id : Bytes) : Event := .advance id (.ok ()) false

end Sample

open Sample

/-- The first Nest runs, and the second finds no room. -/
theorem limits_hold_refused :
    let reached := run config host [create firstId, next firstId, next firstId, next firstId,
      create secondId]
    reached.1.nests.total Nest.share ≤ 1 ∧ reached.1.nests.count Nest.isResident ≤ 1 := by
  refine limits_hold _ host (fun _ => rfl) (by decide) (by decide) _ ?_
  rintro earlier event ⟨later, he⟩
  rcases earlier with _ | ⟨_, _ | ⟨_, _ | ⟨_, _ | ⟨_, _ | ⟨_, _ | _⟩⟩⟩⟩⟩ <;> cases he
  · intro other req
    nofun
  · intro hp
    cases hp
  · intro _ other
    change update (update _ _ _) _ _ _ ≠ _
    simp only [update_apply]
    split_ifs <;> nofun
  · intro hp
    cases hp
  · intro other req
    -- whoever held a lock gave it back
    change update (update (update (update _ _ _) _ _) _ _) _ _ _ ≠ _
    simp [update_apply, host]

/-- Two creations check before either writes. -/
theorem limits_exceeded :
    let h := (run config host [create firstId, create secondId, next firstId,
      next secondId, next firstId, next secondId, next firstId, next secondId]).1
    config.maxTotalGib < h.nests.total Nest.share ∧
      config.maxRunning < h.nests.count Nest.isResident := by
  decide +kernel

end Pigeonpost.Nests
