import Pigeonpost.Verification.Group.Steps

/-! # Runs of the postbox

What every accepted operation does to each group, and the rule for invariants of groups. -/

namespace Pigeonpost.Groups

open KeyedTable List Groups.Group

variable {request : Request}

namespace Group

variable {crypto : GroupCrypto} {dir : Directory} {claims : List KpClaim} {me address : Mailbox}
  {device : DeviceId} {req : CommitReq} {now : ℕ} {g g' : Group}

def created (dir : Directory) (me : Mailbox) (new : NewGroup) (now : ℕ) : Group :=
  let g := provisioned new.id new.orgId new.joinPolicy new.postPolicy new.visibility
    new.membersCanInvite new.membersCanChangeTimer new.autoJoin new.ephemeralSecs me now
  (g.inviteAll (g.maxMembers dir) me now new.invitees).1

theorem id_created {new : NewGroup} : (created dir me new now).id = new.id :=
  congrArg (·.1) (invites_inviteAll _ _ _ _ new.invitees).aside

/-- A group stays where it is, is opened once and deleted for good. -/
structure Frame (g g' : Group) : Prop where
  id : g'.id = g.id
  unopened : g'.activationState = .provisioning → g.activationState = .provisioning
  deleted : g.deletedAt.isSome = true → g'.deletedAt.isSome = true

theorem frame_of_aside (h : g'.aside = g.aside) : Frame g g' :=
  ⟨congrArg (·.1) h, fun ha => activationState_of_aside h ▸ ha, fun hd => deletedAt_of_aside h ▸ hd⟩

theorem Frame.trans {g₁ g₂ g₃ : Group} (h : Frame g₁ g₂) (h' : Frame g₂ g₃) : Frame g₁ g₃ :=
  ⟨h'.id.trans h.id, h.unopened ∘ h'.unopened, h'.deleted ∘ h.deleted⟩

theorem Quiet.frame (h : Quiet g g') : Frame g g' := frame_of_aside h.aside

theorem frame_ban {reason : Option Bytes} (h : g'.aside = g.aside) :
    Frame g (g'.ban address me reason now) := by
  have hf := frame_of_aside h
  rw [ban_eq]
  exact ⟨hf.id, hf.unopened, hf.deleted⟩

theorem frame_deleteIn : Frame g (g.deleteIn now) := ⟨rfl, fun h => h, fun _ => rfl⟩

theorem Effect.frame (h : Effect dir me now g request g') : Frame g g' := by
  cases h with
  | quiet h => exact h.frame
  | delete => exact frame_deleteIn
  | invite => exact frame_of_aside (invites_inviteAll _ _ _ _ _).aside
  | remove | leave => exact frame_of_aside aside_takeOut
  | removeBan => exact frame_ban aside_takeOut
  | withdrawBan | banGone => exact frame_ban rfl
  | unban => exact ⟨rfl, fun h => h, fun h => h⟩
  | accept | join => exact frame_of_aside aside_startKeying
  | leaveLast => exact frame_deleteIn.trans (frame_of_aside rfl)
  | cursor | role | withdraw | transfer => exact frame_of_aside rfl

theorem aside_handedOver {owner heir : MemberRow} {actor : Mailbox} :
    (g.handedOver owner heir actor now).aside = g.aside := aside_takeOut

theorem Offboarded.frame {mailbox actor : Mailbox} (h : Offboarded mailbox actor now g g') :
    Frame g g' := by
  cases h with
  | same | withdrawn => exact frame_of_aside rfl
  | handedOver => exact frame_of_aside aside_handedOver
  | ended => exact frame_deleteIn
  | removed => exact frame_of_aside aside_takeOut

theorem aside_autoJoinRoom {org : OrgId} : (g.autoJoinRoom org address now).aside = g.aside := by
  unfold autoJoinRoom
  split
  · split
    · rfl
    · exact aside_startKeying
  · rfl

theorem frame_clean (picked : List ℕ) (purged : Bool) : Frame g (g.clean now picked purged) := by
  have he := (quiet_expire now picked g).frame
  have hp := (quiet_pruneHandshakes now
    (if purged = true then (g.expire now picked).purge now else g.expire now picked)).frame
  refine Frame.trans ?_ hp
  split
  · refine he.trans ?_
    unfold purge
    split
    · exact ⟨rfl, fun h => h, fun h => h⟩
    · exact frame_of_aside rfl
  · exact he

theorem frame_applyCommit (h : g.applyCommit crypto dir claims me device req now = .ok g') :
    Frame g g' := by
  obtain ⟨committed, mid, ha⟩ := applyCommit_eq_ok h
  refine ⟨congrArg (·.1) ha.settled, fun hp => ?_, fun hd => ?_⟩
  · cases ha.activationState.symm.trans hp
  · rw [show g'.deletedAt = g.deletedAt from congrArg (·.2.1) ha.settled]
    exact hd

end Group

namespace Postbox

/-- What an accepted operation does to one group. -/
inductive GroupStep (crypto : GroupCrypto) (p : Postbox) (now : ℕ) : Op → Group → Group → Prop
  | same {op g} : GroupStep crypto p now op g g
  | request {me request g g'} (hme : me ∈ p.dir.identities)
    (hnamed : ∀ who ∈ request.named, who ∈ p.dir.identities)
    (h : g.perform crypto p.dir me now request = .ok g') :
    GroupStep crypto p now (.request me g.id request) g g'
  | commit {me device gid req g g'}
    (h : g.applyCommit crypto p.dir p.claims me device req now = .ok g') :
    GroupStep crypto p now (.commit me device gid req) g g'
  | patchRoom {gid autoJoin listed g g'} (h : g.patchRoom autoJoin listed = .ok g') :
    GroupStep crypto p now (.patchRoom gid autoJoin listed) g g'
  | deleteRoom {gid g} : GroupStep crypto p now (.deleteRoom gid) g (g.deleteIn now)
  | onboard {org address g} (hfresh : address ∉ p.dir.identities) :
    GroupStep crypto p now (.onboard org address) g (g.autoJoinRoom org address now)
  | offboard {mailbox actor g} :
    GroupStep crypto p now (.offboard mailbox actor) g (g.offboard mailbox actor now)
  | registerDevice {me device key g} :
    GroupStep crypto p now (.registerDevice me device key) g (g.deviceAdded me now)
  | revokeDevice {me device g} :
    GroupStep crypto p now (.revokeDevice me device) g (g.deviceRevoked me device now)
  | stream {gid host g} :
    GroupStep crypto p now (.streamNotice gid host) g (g.addNotice .stream (some host) now)
  | sweep {expired purged picked isPurged g} :
    GroupStep crypto p now (.sweep expired purged) g (g.clean now picked isPurged)

variable {crypto : GroupCrypto} {p p' : Postbox} {now : ℕ} {op : Op} {events : List Event}
  {gid : GroupId} {g g' : Group} {me : Mailbox}

section

variable (h : GroupStep crypto p now op g g')

include h

theorem GroupStep.frame : Group.Frame g g' := by
  cases h with
  | same | stream => exact frame_of_aside rfl
  | request _ _ h => exact (effect_perform h).frame
  | commit h => exact frame_applyCommit h
  | patchRoom h => exact (quiet_patchRoom h).frame
  | deleteRoom => exact frame_deleteIn
  | onboard => exact frame_of_aside aside_autoJoinRoom
  | offboard => exact (offboarded _ _ _ _).frame
  | registerDevice => exact (quiet_deviceAdded _ _ _).frame
  | revokeDevice => exact (quiet_deviceRevoked _ _ _ _).frame
  | sweep => exact frame_clean _ _

theorem GroupStep.notDeleted (ha : g'.deletedAt = none) : g.deletedAt = none := by
  by_contra hd
  have hc := h.frame.deleted (Option.isSome_iff_ne_none.mpr hd)
  rw [ha] at hc
  cases hc

end

theorem context_eq_ok {device : Option DeviceId} {u : Unit} (h : p.context me device = .ok u) :
    me ∈ p.dir.identities := by
  simp only [context, ok_iff, not_not] at h
  exact h.1

theorem onGroup_eq_ok {f : Group → Except GErr Group} : p.onGroup gid f = .ok p' ↔
    ∃ g g', p.groups.lookup gid = some g ∧ f g = .ok g' ∧
      { p with groups := p.groups.put g' } = p' := by
  simp only [onGroup, ok_iff]
  constructor
  · rintro ⟨g, hg, g', hg', rfl⟩
    exact ⟨g, g', hg, hg', rfl⟩
  · rintro ⟨g, g', hg, hg', rfl⟩
    exact ⟨g, hg, g', hg', rfl⟩

theorem step_create {new : NewGroup} (h : p.handle crypto now (.create me new) = .ok (p', events)) :
    me ∈ p.dir.identities ∧
      (∀ who ∈ new.invitees.filterMap Invitee.target, who ∈ p.dir.identities) ∧
      p.groups.lookup new.id = none ∧
      p' = { p with groups := p.groups.put (created p.dir me new now) } := by
  simp only [handle, create, ok_iff, Prod.mk.injEq, not_exists, not_and, not_not] at h
  obtain ⟨_, hc, hn, -, ⟨result, hinv, groups, hins, rfl⟩, rfl, -⟩ := h
  have hr : created p.dir me new now = result.1 := congrArg Prod.fst (inviteIn_eq_ok hinv)
  have hid : result.1.id = new.id := hr ▸ id_created
  obtain ⟨hnone, -⟩ := insert_eq_some.mp hins
  rw [insert_eq_put hnone] at hins
  refine ⟨context_eq_ok hc, hn, hid ▸ hnone, ?_⟩
  rw [hr, ← Option.some.inj hins]

theorem dir_groups_uploadKeyPackages {device : DeviceId} {packages : List Bytes}
    {lastResort : Option Bytes}
    (h : uploadKeyPackages crypto p me device packages lastResort now = .ok p') :
    p'.dir = p.dir ∧ p'.groups = p.groups := by
  simp only [uploadKeyPackages, ok_iff] at h
  obtain ⟨-, d, -, -, table, -, h⟩ := h
  cases lastResort with
  | none =>
    cases h
    exact ⟨rfl, rfl⟩
  | some =>
    simp only [ok_iff] at h
    obtain ⟨kp, -, rfl⟩ := h
    exact ⟨rfl, rfl⟩

/-- What an accepted operation does to the table of groups. -/
inductive GroupsStep (crypto : GroupCrypto) (p : Postbox) (now : ℕ) (op : Op)
    (groups : KeyedTable Group.id) : Prop
  | same (h : groups = p.groups)
  | one {g g' : Group} (hg : p.groups.lookup g.id = some g)
    (hstep : GroupStep crypto p now op g g') (h : groups = p.groups.put g')
  | all (f : Group → Group) (hf : ∀ g, (f g).id = g.id)
    (hstep : ∀ g, GroupStep crypto p now op g (f g)) (h : groups = p.groups.update f hf)
  | created {me : Mailbox} {new : NewGroup} (hop : op = .create me new)
    (hme : me ∈ p.dir.identities)
    (hnamed : ∀ who ∈ new.invitees.filterMap Invitee.target, who ∈ p.dir.identities)
    (hnone : p.groups.lookup new.id = none)
    (h : groups = p.groups.put (Group.created p.dir me new now))

/-- What an accepted operation does to the directory. -/
inductive DirStep (p : Postbox) (dir : Directory) : Prop
  | same (h : dir = p.dir)
  | minted (address : Mailbox)
    (h : dir = { p.dir with identities := p.dir.identities ++ [address] })
  | org (org : Org)
    (hseats : ∀ seat ∈ org.members ++ org.agents, ∀ who ∈ seat.identity, who ∈ p.dir.identities)
    (h : dir = { p.dir with orgs := p.dir.orgs.put org })
  | devices (devices : KeyedTable Device.key) (h : dir = { p.dir with devices })

/-- Every accepted operation, table by table. -/
theorem steps_of_handle (h : p.handle crypto now op = .ok (p', events)) :
    GroupsStep crypto p now op p'.groups ∧ DirStep p p'.dir := by
  cases op with
  | mint address =>
    simp only [handle, mint, ok_iff, Prod.mk.injEq] at h
    obtain ⟨-, ⟨-, rfl⟩, rfl, -⟩ := h
    exact ⟨.same rfl, .minted address rfl⟩
  | changeOrg org =>
    simp only [handle] at h
    split at h
    · rename_i hs
      cases h
      exact ⟨.same rfl, .org org hs rfl⟩
    · cases h
  | create =>
    obtain ⟨hme, hn, hnone, rfl⟩ := step_create h
    exact ⟨.created rfl hme hn hnone rfl, .same rfl⟩
  | request _ gid request =>
    simp only [handle, ok_iff, Prod.mk.injEq, not_exists, not_and, not_not] at h
    obtain ⟨_, hme, hn, g, hg, g', hp, rfl, -⟩ := h
    obtain rfl : g.id = gid := key_of_lookup hg
    exact ⟨.one hg (.request (context_eq_ok hme) hn hp) rfl, .same rfl⟩
  | patchRoom gid =>
    simp only [handle, ok_iff, onGroup_eq_ok, Prod.mk.injEq] at h
    obtain ⟨-, ⟨g, g', hg, hpatch, rfl⟩, rfl, -⟩ := h
    obtain rfl : g.id = gid := key_of_lookup hg
    exact ⟨.one hg (.patchRoom hpatch) rfl, .same rfl⟩
  | deleteRoom gid =>
    simp only [handle, ok_iff, onGroup_eq_ok, Prod.mk.injEq] at h
    obtain ⟨-, ⟨g, g', hg, ⟨-, -, rfl⟩, rfl⟩, rfl, -⟩ := h
    obtain rfl : g.id = gid := key_of_lookup hg
    exact ⟨.one hg .deleteRoom rfl, .same rfl⟩
  | onboard org address =>
    simp only [handle, mint, ok_iff, Prod.mk.injEq] at h
    obtain ⟨-, ⟨hf, rfl⟩, rfl, -⟩ := h
    exact ⟨.all _ (fun g => g.id_autoJoinRoom org address now) (fun _ => .onboard hf) rfl,
      .minted address rfl⟩
  | offboard mailbox actor =>
    cases h
    exact ⟨.all _ (fun g => g.id_offboard mailbox actor now) (fun _ => .offboard) rfl, .same rfl⟩
  | registerDevice me =>
    simp only [handle, registerDevice, ok_iff, Prod.mk.injEq] at h
    obtain ⟨-, -, -, ⟨-, -, -, rfl⟩, rfl, -⟩ := h
    exact ⟨.all _ (fun g => g.id_deviceAdded me now) (fun _ => .registerDevice) rfl, .devices _ rfl⟩
  | revokeDevice me device =>
    simp only [handle, revokeDevice, ok_iff, Prod.mk.injEq] at h
    obtain ⟨-, -, -, ⟨d, -, rfl⟩, rfl, -⟩ := h
    exact ⟨.all _ (fun g => g.id_deviceRevoked me device now) (fun _ => .revokeDevice) rfl,
      .devices _ rfl⟩
  | uploadKeyPackages =>
    simp only [handle, ok_iff, Prod.mk.injEq] at h
    obtain ⟨-, -, uploaded, hu, rfl, -⟩ := h
    exact (dir_groups_uploadKeyPackages hu).symm.imp .same .same
  | claim =>
    simp only [handle, claim, ok_iff, Prod.mk.injEq] at h
    obtain ⟨-, -, -, -, -, -, -, -, rfl, -⟩ := h
    exact ⟨.same rfl, .same rfl⟩
  | commit _ _ gid =>
    simp only [handle, commit, ok_iff, Prod.mk.injEq] at h
    obtain ⟨-, -, -, -, g, hg, g', hc, rfl, -⟩ := h
    obtain rfl : g.id = gid := key_of_lookup hg
    exact ⟨.one hg (.commit hc) rfl, .same rfl⟩
  | streamNotice gid host =>
    simp only [handle, ok_iff, onGroup_eq_ok, Prod.mk.injEq] at h
    obtain ⟨-, ⟨g, g', hg, ⟨-, -, rfl⟩, rfl⟩, rfl, -⟩ := h
    obtain rfl : g.id = gid := key_of_lookup hg
    exact ⟨.one hg .stream rfl, .same rfl⟩
  | sweep =>
    cases h
    exact ⟨.all _ (fun g => g.id_clean now _ _) (fun _ => .sweep) rfl, .same rfl⟩

section

variable (h : p.handle crypto now op = .ok (p', events))

include h

/-- A group is still there after an accepted operation, changed by its step. -/
theorem exists_groupStep (hg : p.groups.lookup gid = some g) :
    ∃ g', p'.groups.lookup gid = some g' ∧ GroupStep crypto p now op g g' := by
  cases (steps_of_handle h).1 with
  | same hgro => exact ⟨g, hgro ▸ hg, .same⟩
  | @one other after ho hs hgro =>
    rw [hgro]
    by_cases heq : gid = other.id
    · subst heq
      cases ho.symm.trans hg
      exact ⟨after, hs.frame.id ▸ lookup_put_self, hs⟩
    · rw [lookup_put_of_ne (hs.frame.id ▸ heq)]
      exact ⟨g, hg, .same⟩
  | all f _ hs hgro =>
    rw [hgro, lookup_update, hg]
    exact ⟨f g, rfl, hs g⟩
  | @created me new _ _ _ hn hgro =>
    rw [hgro, lookup_put_of_ne]
    · exact ⟨g, hg, .same⟩
    · rw [id_created]
      rintro rfl
      cases hn.symm.trans hg

theorem created_of_lookup
    (hnone : p.groups.lookup gid = none) (hg' : p'.groups.lookup gid = some g') :
    ∃ me new, op = .create me new ∧ me ∈ p.dir.identities ∧
      (∀ who ∈ new.invitees.filterMap Invitee.target, who ∈ p.dir.identities) ∧
      g' = created p.dir me new now := by
  cases (steps_of_handle h).1 with
  | same hg =>
    rw [hg, hnone] at hg'
    cases hg'
  | one ho hs hg =>
    rw [hg, lookup_put_of_ne, hnone] at hg'
    · cases hg'
    · rw [hs.frame.id]
      rintro rfl
      cases ho.symm.trans hnone
  | all _ _ _ hg =>
    rw [hg, lookup_update, hnone] at hg'
    cases hg'
  | @created me new hop hme hn _ hg =>
    rw [hg, lookup_put_eq_some] at hg'
    rcases hg' with ⟨-, rfl⟩ | ⟨-, hg'⟩
    · exact ⟨me, new, hop, hme, hn, rfl⟩
    · cases hnone.symm.trans hg'

/-! ## The directory -/

/-- No address is ever taken back. -/
theorem identities_subset : p.dir.identities ⊆ p'.dir.identities := by
  cases (steps_of_handle h).2 with
  | same h | org _ _ h | devices _ h => rw [h]; exact List.Subset.refl _
  | minted _ h => rw [h]; exact subset_append_left _ _

end

/-! ## Runs -/

/-- The postboxes operations lead to. -/
def Reachable (crypto : GroupCrypto) (p : Postbox) : Prop := ∃ ops, (run crypto ops).1 = p

theorem reachable_run (crypto : GroupCrypto) (ops : List (ℕ × Op)) :
    Reachable crypto (run crypto ops).1 := ⟨ops, rfl⟩

/-- What holds of the empty postbox and is kept by every accepted operation always holds. -/
theorem Reachable.invariant (Inv : Postbox → Prop) (he : Inv empty)
    (hs : ∀ {p p' : Postbox} {now : ℕ} {op : Op} {events : List Event}, Reachable crypto p →
      p.handle crypto now op = .ok (p', events) → Inv p → Inv p')
    (h : Reachable crypto p) : Inv p := by
  obtain ⟨ops, rfl⟩ := h
  induction ops using reverseRecOn with
  | nil => exact he
  | append_singleton ops e ih =>
    rw [run, Machine.run_append_singleton, ← run]
    cases hh : (run crypto ops).1.handle crypto e.1 e.2 with
    | error =>
      rw [step, hh]
      exact ih
    | ok =>
      rw [step, hh]
      exact hs ⟨ops, rfl⟩ hh ih

/-- What holds of a new group and is kept by every step of a group holds of every group. -/
theorem Reachable.groups (Inv : Directory → Group → Prop)
    (hc : ∀ {p p' : Postbox} {now : ℕ} {me : Mailbox} {new : NewGroup} {events : List Event},
      p.handle crypto now (.create me new) = .ok (p', events) → me ∈ p.dir.identities →
    (∀ who ∈ new.invitees.filterMap Invitee.target, who ∈ p.dir.identities) →
      Inv p'.dir (created p.dir me new now))
    (hs : ∀ {p p' : Postbox} {now : ℕ} {op : Op} {events : List Event} {g g' : Group},
      Reachable crypto p → p.handle crypto now op = .ok (p', events) →
      GroupStep crypto p now op g g' → Inv p.dir g → Inv p'.dir g')
    (h : Reachable crypto p) (hg : p.groups.lookup gid = some g) : Inv p.dir g := by
  refine h.invariant (fun p => ∀ gid g, p.groups.lookup gid = some g → Inv p.dir g)
    (fun _ _ hg => by cases hg) ?_ gid g hg
  intro p p' now op events hr hh hinv gid g' hg'
  cases hg : p.groups.lookup gid with
  | some g =>
    obtain ⟨after, ha, hgroup⟩ := exists_groupStep hh hg
    cases hg'.symm.trans ha
    exact hs hr hh hgroup (hinv gid g hg)
  | none =>
    obtain ⟨me, new, rfl, hme, hn, rfl⟩ := created_of_lookup hh hg hg'
    exact hc hh hme hn

/-- What holds of a group and is kept by every admissible step of it holds of it later. -/
theorem exists_later (P : Group → Prop) (Admissible : Op → Prop) {ops later : List (ℕ × Op)}
    (hg : (run crypto ops).1.groups.lookup gid = some g) (hP : P g)
    (hl : ∀ e ∈ later, Admissible e.2)
    (hs : ∀ {p : Postbox} {now : ℕ} {op : Op} {g g' : Group}, Reachable crypto p →
      g.id = gid → GroupStep crypto p now op g g' → Admissible op → P g → P g') :
    ∃ g', (run crypto (ops ++ later)).1.groups.lookup gid = some g' ∧ P g' := by
  induction later using reverseRecOn with
  | nil =>
    rw [append_nil]
    exact ⟨g, hg, hP⟩
  | append_singleton later e ih =>
    obtain ⟨mid, hm, hPmid⟩ := ih fun e he => hl e (mem_append_left _ he)
    rw [← append_assoc, run, Machine.run_append_singleton, ← run]
    cases hh : (run crypto (ops ++ later)).1.handle crypto e.1 e.2 with
    | error =>
      rw [step, hh]
      exact ⟨mid, hm, hPmid⟩
    | ok =>
      obtain ⟨g', hg', hgroup⟩ := exists_groupStep hh hm
      rw [step, hh]
      exact ⟨g', hg', hs (reachable_run crypto _) (key_of_lookup hm) hgroup (hl e (by simp)) hPmid⟩

/-- The seats of organizations are held by existing mailboxes. -/
theorem Reachable.seats (h : Reachable crypto p) {id : OrgId} {org : Org}
    (ho : p.dir.orgs.lookup id = some org) :
    ∀ seat ∈ org.members, ∀ who ∈ seat.identity, who ∈ p.dir.identities := by
  refine h.invariant (fun p => ∀ id org, p.dir.orgs.lookup id = some org →
    ∀ seat ∈ org.members, ∀ who ∈ seat.identity, who ∈ p.dir.identities) (fun _ _ => nofun) ?_ id
    org ho
  intro p p' now op events _ hh hinv id org ho seat hseat who hw
  refine identities_subset hh ?_
  cases (steps_of_handle hh).2 with
  | same h | minted _ h | devices _ h =>
    rw [h] at ho
    exact hinv id org ho seat hseat who hw
  | org _ hs h =>
    rw [h] at ho
    rcases lookup_put_eq_some.mp ho with ⟨-, rfl⟩ | ⟨-, ho⟩
    · exact hs seat (mem_append_left _ hseat) who hw
    · exact hinv id org ho seat hseat who hw

end Postbox

end Pigeonpost.Groups
