import Pigeonpost.Verification.Group.Rows

/-! # Bans hold

A listed mailbox has no row, or a banned one. No route back in starts from there: invitations
are refused, joining is refused, an address that is onboarded is new, and a room that opens has
no bans yet. -/

namespace Pigeonpost.Groups

open Postbox KeyedTable Groups.Group

section

variable {crypto : GroupCrypto} {p p' : Postbox} {dir : Directory} {now : ℕ} {op : Op}
  {events : List Event} {gid : GroupId} {me who : Mailbox} {g g' : Group}

/-! ## What a step does to the list -/

/-- What a step does to the list of bans. -/
inductive BanChange (op : Op) (g g' : Group) : Prop
  | same (h : g'.bans = g.bans)
  | ban {ban : Ban} (hactor : ∃ me actor, g.loadMember me = some actor ∧ actor.state = .active)
    (hfound : ∃ target, g.loadMember ban.member = some target)
    (hrow : ∀ m, g'.loadMember ban.member = some m → m.state = .banned)
    (h : g'.bans = g.bans.put ban)
  | unban {me address} (hop : op = .request me g.id (.unban address))
    (h : g'.bans = g.bans.delete fun row => row.member = address)
  | purged (hdeleted : g.deletedAt.isSome = true) (hrows : g'.members = .empty)
    (h : g'.bans = .empty)

namespace Group

theorem banChange_ban {mid : Group} {reason : Option Bytes} {target : MemberRow}
    (hmay : MayRemove g me target) (hb : mid.bans = g.bans) :
    BanChange op g (mid.ban target.member me reason now) := by
  obtain ⟨actor, hactor, hact, -⟩ := hmay.actor
  have hbans : (mid.ban target.member me reason now).bans =
      g.bans.put ⟨target.member, me, reason, now⟩ := by
    rw [ban_eq, hb]
  refine .ban ⟨me, actor, hactor, hact⟩ ⟨target, hmay.found⟩ (fun m hm => ?_) hbans
  rw [loadMember_ban, if_pos rfl, Option.map_eq_some_iff] at hm
  obtain ⟨old, -, rfl⟩ := hm
  rfl

theorem Effect.banChange {request : Request} (h : Effect dir me now g request g') :
    BanChange (.request me g.id request) g g' := by
  cases h with
  | quiet h => exact .same (bans_of_aside h.aside)
  | invite => exact .same (bans_of_aside (invites_inviteAll _ _ _ _ _).aside)
  | withdrawBan hmay | banGone hmay => exact banChange_ban hmay rfl
  | remove | leave => exact .same (bans_of_aside aside_takeOut)
  | removeBan hmay => exact banChange_ban hmay (bans_of_aside aside_takeOut)
  | unban => exact .unban rfl rfl
  | accept | join => exact .same (bans_of_aside aside_startKeying)
  | _ => exact .same rfl

theorem Offboarded.bans {mailbox actor : Mailbox} (h : Offboarded mailbox actor now g g') :
    g'.bans = g.bans := by
  cases h with
  | handedOver => exact bans_of_aside aside_handedOver
  | removed => exact bans_of_aside aside_takeOut
  | _ => rfl

theorem banChange_clean {picked : List ℕ} {purged : Bool} :
    BanChange op g (g.clean now picked purged) := by
  have he := quiet_expire now picked g
  have hprune := quiet_pruneHandshakes now
    (if purged = true then (g.expire now picked).purge now else g.expire now picked)
  cases purged with
  | false => exact .same ((bans_of_aside hprune.aside).trans (bans_of_aside he.aside))
  | true =>
    rw [if_pos rfl] at hprune
    by_cases hp : (g.expire now picked).purgeable now = true
    · refine .purged (deleted_of_purgeable hp) ?_ ?_
      · refine hprune.members.trans ?_
        rw [purge, if_pos hp]
      · refine (bans_of_aside hprune.aside).trans ?_
        rw [purge, if_pos hp]
    · refine .same ((bans_of_aside hprune.aside).trans ?_)
      rw [purge, if_neg hp]
      exact bans_of_aside he.aside

end Group

theorem Postbox.GroupStep.banChange (h : GroupStep crypto p now op g g') : BanChange op g g' := by
  cases h with
  | same | deleteRoom | stream => exact .same rfl
  | request _ _ h => exact (effect_perform h).banChange
  | commit h =>
    obtain ⟨committed, mid, ha⟩ := applyCommit_eq_ok h
    exact .same (congrArg (·.2.2) ha.settled)
  | patchRoom h => exact .same (bans_of_aside (quiet_patchRoom h).aside)
  | onboard => exact .same (bans_of_aside aside_autoJoinRoom)
  | offboard => exact .same (offboarded _ _ _ _).bans
  | registerDevice => exact .same (bans_of_aside (quiet_deviceAdded _ _ _).aside)
  | revokeDevice => exact .same (bans_of_aside (quiet_deviceRevoked _ _ _ _).aside)
  | sweep => exact banChange_clean

/-! ## The invariant -/

/-- What keeps a banned mailbox out. -/
structure Bars (dir : Directory) (g : Group) : Prop where
  known : ∀ who m, g.loadMember who = some m → who ∈ dir.identities
  listed : ∀ who, g.isBanned who = true → who ∈ dir.identities
  barred : ∀ who m, g.isBanned who = true → g.loadMember who = some m → m.state = .banned
  unopened : g.activationState = .provisioning →
    (∀ who, g.isBanned who = false) ∧ ∀ who m, g.loadMember who = some m → m.state ≠ .active

variable {m' : MemberRow}

theorem exists_of_kept
    (h : (g'.loadMember who).map MemberRow.standing = (g.loadMember who).map MemberRow.standing)
    (hm' : g'.loadMember who = some m') :
    ∃ m, g.loadMember who = some m ∧ m.standing = m'.standing := by
  rw [hm'] at h
  exact Option.map_eq_some_iff.mp h.symm

/-- No row of a listed mailbox turns into anything but a banned one. -/
theorem Bars.banned_of_touch (hbars : Bars dir g) (h : Touch dir op g g' who)
    (hl : g.isBanned who = true) (hm' : g'.loadMember who = some m') : m'.state = .banned := by
  have hd : ∀ m, g.loadMember who = some m → m.state.isLive = false := by
    intro m hm
    rw [hbars.barred who m hl hm]
    rfl
  cases h with
  | kept h =>
    obtain ⟨m, hm, hsta⟩ := exists_of_kept h hm'
    exact (congrArg (·.2) hsta).symm.trans (hbars.barred who m hl hm)
  | gone _ h => cases h.symm.trans hm'
  | invited _ _ _ hb => exact absurd hl (by simp [hb])
  | out hm hlive | role hm hlive => exact absurd hlive (by simp [hd _ hm])
  | banned _ _ h hs =>
    cases h.symm.trans hm'
    exact hs
  | keying _ _ _ he =>
    exfalso
    cases he with
    | accept hinv =>
      obtain ⟨m, hm, hs⟩ := Option.map_eq_some_iff.mp hinv
      rw [hbars.barred who m hl hm] at hs
      cases hs
    | join _ hb => exact absurd hl (by simp [hb])
    | onboard hf => exact hf (hbars.listed who hl)
    | opened hp =>
      exact absurd hl (by simp [(hbars.unopened hp).1 who])
  | activated hm hk =>
    have hd := hd _ hm
    rw [hk] at hd
    cases hd

/-- A listed mailbox was listed before, or an active member listed it just now. -/
theorem BanChange.isBanned (h : BanChange op g g') (hl : g'.isBanned who = true) :
    g.isBanned who = true ∨ (∃ target, g.loadMember who = some target) ∧
      (∃ me actor, g.loadMember me = some actor ∧ actor.state = .active) ∧
      ∀ m, g'.loadMember who = some m → m.state = .banned := by
  unfold Group.isBanned at hl ⊢
  cases h with
  | same h => exact .inl (h ▸ hl)
  | @ban ban ha hf hr h =>
    rw [h] at hl
    by_cases heq : who = ban.member
    · subst heq
      exact .inr ⟨hf, ha, hr⟩
    · rw [lookup_put_of_ne heq] at hl
      exact .inl hl
  | unban _ h =>
    rw [h, lookup_delete] at hl
    refine .inl ?_
    cases hloo : g.bans.lookup who with
    | none => simp [hloo] at hl
    | some => rfl
  | purged _ _ h =>
    rw [h] at hl
    cases hl

section

variable (hr : Reachable crypto p) (hh : p.handle crypto now op = .ok (p', events))

include hr hh

theorem Touch.known (hk : ∀ m, g.loadMember who = some m → who ∈ p.dir.identities)
    (h : Touch p.dir op g g' who) (hm' : g'.loadMember who = some m') :
    who ∈ p'.dir.identities := by
  have hg : who ∈ p.dir.identities → who ∈ p'.dir.identities := fun h =>
    identities_subset hh h
  cases h with
  | kept h =>
    obtain ⟨m, hm, -⟩ := exists_of_kept h hm'
    exact hg (hk m hm)
  | gone _ h => cases h.symm.trans hm'
  | invited _ hmem => exact hg hmem
  | out hm | banned hm | activated hm | role hm => exact hg (hk _ hm)
  | keying _ _ _ he =>
    cases he with
    | accept hinv =>
      obtain ⟨m, hm, -⟩ := Option.map_eq_some_iff.mp hinv
      exact hg (hk m hm)
    | join hmem => exact hg hmem
    | onboard =>
      simp only [handle, mint, ok_iff, Prod.mk.injEq] at hh
      obtain ⟨-, ⟨-, rfl⟩, rfl, -⟩ := hh
      exact List.mem_append_right _ List.mem_cons_self
    | opened _ _ hs =>
      obtain ⟨org, ho, seat, hs, hide⟩ := hs
      obtain ⟨id, -, ho⟩ := Option.bind_eq_some_iff.mp ho
      exact hg (hr.seats ho seat hs who hide)

theorem Bars.step (hstep : GroupStep crypto p now op g g') (hbars : Bars p.dir g) :
    Bars p'.dir g' := by
  have hk : ∀ who m, g'.loadMember who = some m → who ∈ p'.dir.identities :=
    fun who m hm => (hstep.touch who).known hr hh (hbars.known who) hm
  refine ⟨hk, fun who hl => ?_, fun who m hl hm => ?_, fun hp => ?_⟩
  · rcases hstep.banChange.isBanned hl with hb | ⟨⟨target, ht⟩, -⟩
    · exact identities_subset hh (hbars.listed who hb)
    · exact identities_subset hh (hbars.known who target ht)
  · rcases hstep.banChange.isBanned hl with hb | ⟨-, -, hrow⟩
    · exact hbars.banned_of_touch (hstep.touch who) hb hm
    · exact hrow m hm
  · obtain ⟨hnob, hn⟩ := hbars.unopened (hstep.frame.unopened hp)
    refine ⟨fun who => ?_, fun who m hm ha => ?_⟩
    · by_contra hl
      rcases hstep.banChange.isBanned (by simpa using hl) with
        hold | ⟨-, ⟨me, actor, hactor, ha⟩, -⟩
      · rw [hnob who] at hold
        cases hold
      · exact hn me actor hactor ha
    · cases hstep.touch who with
      | kept h =>
        obtain ⟨old, hold, hsta⟩ := exists_of_kept h hm
        exact hn who old hold ((congrArg (·.2) hsta).trans ha)
      | gone _ h => cases h.symm.trans hm
      | invited _ _ _ _ h hs | banned _ _ h hs =>
        cases h.symm.trans hm
        cases hs.symm.trans ha
      | out _ _ h hs =>
        cases h.symm.trans hm
        rw [ha] at hs
        cases hs
      | keying _ _ h =>
        cases h.symm.trans hm
        cases state_keyingRow.symm.trans ha
      | activated _ _ _ ho => cases ho.symm.trans hp
      | role hold _ h hs =>
        cases h.symm.trans hm
        exact hn who _ hold (hs.symm.trans ha)

end

theorem bars_created {new : NewGroup} (hme : me ∈ dir.identities)
    (hnamed : ∀ who ∈ new.invitees.filterMap Invitee.target, who ∈ dir.identities) :
    Bars dir (created dir me new now) := by
  have hn : ∀ who, (created dir me new now).isBanned who = false :=
    fun who => invites_created.isBanned
  refine ⟨fun who m hm => ?_, fun who hl => ?_, fun who m hl => ?_,
    fun _ => ⟨hn, fun who m hm => ?_⟩⟩
  · by_cases heq : who = me
    · exact heq ▸ hme
    · exact hnamed who (invited_of_created heq hm).1
  · rw [hn who] at hl
    cases hl
  · rw [hn who] at hl
    cases hl
  · by_cases heq : who = me
    · rw [heq, loadMember_created_self] at hm
      cases hm
      exact nofun
    · rw [(invited_of_created heq hm).2.1]
      exact nofun

theorem Postbox.Reachable.bars (h : Reachable crypto p) (hg : p.groups.lookup gid = some g) :
    Bars p.dir g := by
  refine h.groups Bars (fun hh hme hn => ?_) (fun hr hh hs hb => ?_) hg
  · have hd := (step_create hh).2.2.2
    rw [hd]
    exact bars_created hme hn
  · exact hb.step hr hh hs

/-! ## Whole runs -/

/-- Listed, or gone with the content of a deleted group. -/
def Excluded (who : Mailbox) (g : Group) : Prop :=
  g.isBanned who = true ∨ g.deletedAt.isSome = true ∧ g.loadMember who = none

theorem Excluded.isMember (h : Excluded who g) (hb : Bars dir g) : g.isMember who = false := by
  cases hm : g.loadMember who with
  | none => simp [Group.isMember, hm]
  | some m =>
    rcases h with hl | ⟨-, hn⟩
    · rw [isMember_of_loadMember hm, hb.barred who m hl hm]
      rfl
    · cases hn.symm.trans hm

theorem Excluded.step (h : Excluded who g) (hs : GroupStep crypto p now op g g')
    (hop : ∀ me, op ≠ .request me g.id (.unban who)) : Excluded who g' := by
  rcases h with hl | ⟨hd, hn⟩
  · cases hs.banChange with
    | same h =>
      refine .inl ?_
      rw [isBanned, h]
      exact hl
    | @ban ban _ _ _ h =>
      refine .inl ?_
      rw [isBanned, h]
      by_cases heq : who = ban.member
      · rw [heq, lookup_put_self]
        rfl
      · rw [lookup_put_of_ne heq]
        exact hl
    | @unban me address hu h =>
      refine .inl ?_
      rw [isBanned, h, lookup_delete]
      obtain ⟨ban, hb⟩ := Option.isSome_iff_exists.mp hl
      have hmem : ban.member = who := key_of_lookup hb
      have hne : who ≠ address := by
        rintro rfl
        exact hop me hu
      simp [hb, hmem, hne]
    | purged hd hrows =>
      refine .inr ⟨hs.frame.deleted hd, ?_⟩
      rw [loadMember, hrows]
      rfl
  · refine .inr ⟨hs.frame.deleted hd, ?_⟩
    have hr := Option.isSome_iff_ne_none.mp hd
    cases hs.touch who with
    | kept h =>
      rw [hn] at h
      exact Option.map_eq_none_iff.mp h
    | gone _ h => exact h
    | invited hc | keying hc => exact absurd hc hr
    | out hm | banned hm | activated hm | role hm => cases hn.symm.trans hm

/-- A banned mailbox is no member of the group, now or later, until somebody lifts its ban. -/
theorem banned_stays_out (crypto : GroupCrypto) (ops later : List (ℕ × Op)) (gid : GroupId)
    (who : Mailbox) {g : Group} (hg : (run crypto ops).1.groups.lookup gid = some g)
    (hlisted : g.isBanned who = true)
    (hkept : ∀ e ∈ later, ∀ me, e.2 ≠ .request me gid (.unban who)) :
    ∃ g', (run crypto (ops ++ later)).1.groups.lookup gid = some g' ∧
      g'.stateOf who ≠ some .keying ∧ g'.stateOf who ≠ some .active := by
  obtain ⟨g', hg', he⟩ := exists_later (Excluded who)
    (fun op => ∀ me, op ≠ .request me gid (.unban who)) hg (.inl hlisted) hkept
    fun _ hid hstep hop he => he.step hstep fun me => hid ▸ hop me
  have ho := he.isMember ((reachable_run crypto _).bars hg')
  have hno : ∀ state, state.isLive = true → g'.stateOf who ≠ some state := by
    intro state hl hs
    obtain ⟨m, hm, rfl⟩ := Option.map_eq_some_iff.mp hs
    rw [isMember_of_loadMember hm, hl] at ho
    cases ho
  exact ⟨g', hg', hno _ rfl, hno _ rfl⟩

end

/-! One-byte names, headers and key packages, for witnesses and failing runs. -/

namespace Sample

/-- Reads a header or a key package off its bytes; every signature verifies. -/
def crypto : GroupCrypto where
  inspectEnvelope
    | [0, g, m, d, c, e] => some ⟨.commit, [g], [m], [d], [c], e.toNat⟩
    | [1, g, m, d, c, e] => some ⟨.application, [g], [m], [d], [c], e.toNat⟩
    | _ => none
  verifyEnvelopeSignature _ _ _ := true
  welcomeRecipients bytes := some (bytes.map fun b => [b])
  inspectKeyPackage
    | [m, d, r] => some ⟨[m], [d], List.replicate 32 0, false, 1000000, [r]⟩
    | _ => none
  hash bytes := bytes

def signatureKey : Bytes := List.replicate 32 0

def group : GroupId := [9]

def owner : Mailbox := [1]

def other : Mailbox := [2]

def device : DeviceId := [1]

/-- A public listed group of the owner. -/
def newGroup : NewGroup :=
  { id := group, orgId := none, joinPolicy := .publicGroup, postPolicy := .everyone
    visibility := .listed, membersCanInvite := true, membersCanChangeTimer := false
    autoJoin := false, ephemeralSecs := none, invitees := [] }

def commitOf (me : UInt8) (epoch : UInt8) (revision : ℕ) (adds : List AddRef)
    (removes : List (Mailbox × DeviceId)) : Op :=
  .commit [me] device group
    { epoch := epoch.toNat, commitId := [epoch], commit := [0, 9, me, 1, epoch, epoch]
      signature := []
      welcome := if adds.isEmpty then none else some (adds.flatMap AddRef.keyPackageRef)
      adds, removes, expectedRevision := revision }

/-- Two mailboxes with a device each, and a group its owner's device has opened. -/
def opening : List (ℕ × Op) :=
  [(1, .mint owner), (1, .mint other), (1, .registerDevice owner device signatureKey),
    (1, .registerDevice other device signatureKey), (1, .create owner newGroup),
    (1, commitOf 1 0 1 [] [])]

def banning : List (ℕ × Op) :=
  opening ++ [(2, .request other group (.join none)),
    (3, .request owner group (.patchMember other 1 (.state .banned) none))]

/-- The banned mailbox tries to come back. -/
theorem banned_stays_out_banning : ∃ g', (run Sample.crypto
        (banning ++ [(4, .request other group (.join none))])).1.groups.lookup group = some g' ∧
      g'.stateOf other ≠ some .keying ∧ g'.stateOf other ≠ some .active := by
  have hl : ((run Sample.crypto banning).1.groups.lookup group).any
      (·.isBanned other) = true := by decide +kernel
  cases hg : (run Sample.crypto banning).1.groups.lookup group with
  | none =>
    rw [hg] at hl
    cases hl
  | some =>
    rw [hg] at hl
    exact banned_stays_out Sample.crypto banning _ group other hg hl (by simp)

end Sample

end Pigeonpost.Groups
