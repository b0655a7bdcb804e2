import Pigeonpost.Verification.Group.Bans

/-! # Authority in a group

One owner, who passes ownership on or is offboarded; admins answer to the owner; everyone else
acts for themselves only. -/

namespace Pigeonpost.Groups

open Postbox Pigeonpost.Groups.Group Option

variable {crypto : GroupCrypto} {p p' : Postbox} {dir : Directory} {now : ℕ} {op : Op}
  {events : List Event} {gid : GroupId} {me who : Mailbox} {g g' : Group}
variable {m : MemberRow} {owner : Mailbox}

def Group.standing (g : Group) (who : Mailbox) : Option Role :=
  (g.loadMember who).bind fun m => if m.state.isLive then some m.role else none

theorem Group.standing_of_loadMember (h : g.loadMember who = some m) :
    g.standing who = if m.state.isLive then some m.role else none := by
  rw [standing, h]
  rfl

theorem Group.standing_of_isMember (h : g.isMember who = false) : g.standing who = none := by
  unfold standing
  cases hm : g.loadMember who with
  | none => rfl
  | some =>
    rw [isMember_of_loadMember hm] at h
    simp [h]

theorem Group.exists_of_standing {role : Role} (h : g.standing who = some role) :
    ∃ m, g.loadMember who = some m ∧ m.role = role := by
  obtain ⟨m, hm, hr⟩ := bind_eq_some_iff.mp h
  split at hr
  · exact ⟨m, hm, some.inj hr⟩
  · cases hr

theorem Group.standing_congr (h : (g'.loadMember who).map MemberRow.standing =
    (g.loadMember who).map MemberRow.standing) : g'.standing who = g.standing who := by
  have hs : ∀ g : Group, g.standing who = ((g.loadMember who).map MemberRow.standing).bind
      fun s => if s.2.isLive then some s.1 else none := by
    intro g
    unfold standing
    cases g.loadMember who <;> rfl
  rw [hs, hs, h]

/-! ## One owner -/

/-- One mailbox has the owner's role, and it is a member. -/
def OneOwner (g : Group) (owner : Mailbox) : Prop :=
  g.isMember owner = true ∧ ∀ who, g.roleOf who = some .owner ↔ who = owner

theorem Group.roleOf_of_loadMember (h : g.loadMember who = some m) :
    g.roleOf who = some m.role := by
  rw [roleOf, h]
  rfl

theorem OneOwner.live (h : OneOwner g owner)
    (hm : g.loadMember who = some m) (hr : m.role = .owner) : m.state.isLive = true := by
  have hw : who = owner := (h.2 who).mp (by rw [roleOf_of_loadMember hm, hr])
  rw [← isMember_of_loadMember hm, hw]
  exact h.1

/-- A row with the owner's role after a step had it before, or succeeded to it. -/
theorem Touch.owner_before (ht : Touch dir op g g' who) (hd : g'.deletedAt = none)
    (hr : g'.roleOf who = some .owner) : g.roleOf who = some .owner ∨ Succession g who op := by
  obtain ⟨m', hm', hr⟩ := map_eq_some_iff.mp hr
  cases ht with
  | kept hk =>
    obtain ⟨m, hm, hsta⟩ := exists_of_kept hk hm'
    refine .inl ?_
    rw [roleOf_of_loadMember hm, ← hr]
    exact congrArg (fun s => some s.1) hsta
  | gone _ hg => cases hg.symm.trans hm'
  | invited _ _ _ _ hn _ hsame =>
    cases hn.symm.trans hm'
    exact .inl (hsame hr)
  | out _ _ hn _ he =>
    cases hn.symm.trans hm'
    have he := he hr
    rw [hd] at he
    cases he
  | banned _ _ hn _ hnot =>
    cases hn.symm.trans hm'
    exact absurd hr hnot
  | keying _ _ hn =>
    cases hn.symm.trans hm'
    unfold keyingRow at hr
    cases hm : g.loadMember who with
    | none =>
      rw [hm] at hr
      cases hr
    | some m =>
      rw [hm] at hr
      by_cases ho : m.role = .owner
      · exact .inl (by rw [roleOf_of_loadMember hm, ho])
      · simp [ho] at hr
  | activated hm _ hn =>
    cases hn.symm.trans hm'
    exact .inl (by rw [roleOf_of_loadMember hm, ← hr]; rfl)
  | role _ _ hn _ _ hs =>
    cases hn.symm.trans hm'
    exact .inr (hs hr)

section

variable (h : OneOwner g owner)

include h

/-- The owner stays the owner, and a member, unless somebody succeeds. -/
theorem OneOwner.after (ht : Touch dir op g g' owner) (hd : g.deletedAt = none) :
    g'.roleOf owner = some .owner ∧ (g'.deletedAt = none → g'.isMember owner = true) ∨
      ∃ next, Succession g next op := by
  obtain ⟨m, hm, hr⟩ := map_eq_some_iff.mp ((h.2 owner).mpr rfl)
  have hl := h.live hm hr
  cases ht with
  | kept hk =>
    rw [hm, map_some] at hk
    obtain ⟨m', hm', hs⟩ := map_eq_some_iff.mp hk
    refine .inl ⟨?_, fun _ => ?_⟩
    · rw [roleOf_of_loadMember hm', ← hr]
      exact congrArg (fun s => some s.1) hs
    · rw [isMember_of_loadMember hm', ← hl]
      exact congrArg (·.2.isLive) hs
  | gone hout =>
    rw [h.1, hd] at hout
    simp at hout
  | invited _ _ hout | keying _ hout => cases h.1.symm.trans hout
  | out hm' _ hn _ he _ ho =>
    cases hm.symm.trans hm'
    rcases ho hr with hk | hsuc
    · refine .inl ⟨by rw [roleOf_of_loadMember hn, hk], fun hc => ?_⟩
      have he := he hk
      rw [hc] at he
      cases he
    · exact .inr hsuc
  | banned hm' hout =>
    cases hm.symm.trans hm'
    cases hl.symm.trans hout
  | activated hm' _ hn =>
    cases hm.symm.trans hm'
    refine .inl ⟨?_, fun _ => ?_⟩
    · rw [roleOf_of_loadMember hn, ← hr]
      rfl
    · rw [isMember_of_loadMember hn]
      rfl
  | role hm' _ _ _ _ _ hp =>
    cases hm.symm.trans hm'
    exact .inr (hp hr)

/-- A step without succession leaves the ownership alone. -/
theorem OneOwner.of_touch (ht : ∀ who, Touch dir op g g' who) (hb : g.deletedAt = none)
    (hd : g'.deletedAt = none) (hno : ∀ next, ¬Succession g next op) : OneOwner g' owner := by
  have ha := (h.after (ht owner) hb).resolve_right fun ⟨next, hn⟩ => hno next hn
  refine ⟨ha.2 hd, fun who => ⟨fun hr => ?_, fun heq => heq ▸ ha.1⟩⟩
  exact (h.2 who).mp (((ht who).owner_before hd hr).resolve_right (hno who))

/-- Ownership goes from one member to another. -/
theorem OneOwner.passed {next : Mailbox} {row : MemberRow} (hn : g'.loadMember next = some row)
    (hl : row.state.isLive = true) (hr : row.role = .owner) (hold : g'.roleOf owner ≠ some .owner)
    (hoth : ∀ who, who ≠ owner → who ≠ next → g'.loadMember who = g.loadMember who) :
    OneOwner g' next := by
  refine ⟨by rw [isMember_of_loadMember hn, hl], fun who => ⟨fun ho => ?_, ?_⟩⟩
  · by_contra hne
    by_cases heq : who = owner
    · exact hold (heq ▸ ho)
    · rw [roleOf, hoth who heq hne, ← roleOf] at ho
      exact heq ((h.2 who).mp ho)
  · rintro rfl
    rw [roleOf_of_loadMember hn, hr]

theorem OneOwner.transfer {next : Mailbox} {revision : ℕ}
    (htra : g.transfer me next revision now = .ok g') : ∃ after, OneOwner g' after := by
  obtain ⟨m, target, hm, -, ho, ht, htac, ha, rfl⟩ := transfer_eq_ok htra
  obtain rfl := member_of_loadMember hm
  obtain rfl := member_of_loadMember ht
  obtain rfl : m.member = owner := (h.2 m.member).mp (by rw [roleOf_of_loadMember hm, ho])
  have hne : target.member ≠ m.member := by
    intro heq
    rw [heq, hm] at ht
    cases ht
    cases ho.symm.trans ha
  have hr := fun who => loadMember_transfer g who m target now
  have hn := (hr target.member).trans (if_pos rfl)
  have hold := (hr m.member).trans ((if_neg hne).trans (if_pos rfl))
  refine ⟨target.member, h.passed hn ?_ rfl ?_ fun who hwho hw => ?_⟩
  · exact congrArg MemberState.isLive htac
  · intro hc
    cases (roleOf_of_loadMember hold).symm.trans hc
  · exact (hr who).trans ((if_neg (Ne.symm hw)).trans (if_neg (Ne.symm hwho)))

end

theorem OneOwner.handOver {heir : MemberRow} {actor : Mailbox} (h : OneOwner g m.member)
    (hh : g.heir m.member = some heir) :
    ∃ after, OneOwner (g.handedOver m heir actor now) after := by
  obtain ⟨hl, hne, ha⟩ := loadMember_of_heir hh
  have hr := fun who => loadMember_handOver g who m heir actor now
  have hn := (hr heir.member).trans ((if_neg (Ne.symm hne)).trans (if_pos rfl))
  have hold := (hr m.member).trans (if_pos rfl)
  refine ⟨heir.member, h.passed hn ?_ rfl ?_ fun who hwho hw => ?_⟩
  · exact congrArg MemberState.isLive ha
  · intro hc
    cases (roleOf_of_loadMember hold).symm.trans hc
  · exact (hr who).trans ((if_neg (Ne.symm hwho)).trans (if_neg (Ne.symm hw)))

theorem OneOwner.offboard {mailbox actor : Mailbox} (h : OneOwner g owner)
    (hoff : Group.Offboarded mailbox actor now g g')
    (ht : ∀ who, Touch dir (.offboard mailbox actor) g g' who) (hb : g.deletedAt = none)
    (hd : g'.deletedAt = none) : ∃ after, OneOwner g' after := by
  have hk : g.roleOf mailbox ≠ some .owner → ∃ after, OneOwner g' after := by
    intro hr
    refine ⟨owner, h.of_touch ht hb hd fun next hn => ?_⟩
    cases hn with
    | offboard hc => exact hr hc
  cases hoff with
  | same => exact ⟨owner, h⟩
  | withdrawn hm hinv =>
    refine hk fun hr => ?_
    have hl := h.live hm (some.inj ((roleOf_of_loadMember hm).symm.trans hr))
    rw [hinv] at hl
    cases hl
  | handedOver hm _ ho hh =>
    obtain rfl := member_of_loadMember hm
    have hme := (h.2 _).mp ((roleOf_of_loadMember hm).trans (congrArg some ho))
    exact OneOwner.handOver (hme ▸ h) hh
  | ended => cases hd
  | removed hm _ ho =>
    refine hk fun hr => ?_
    exact ho (some.inj ((roleOf_of_loadMember hm).symm.trans hr))

theorem OneOwner.step (h : OneOwner g owner) (hs : GroupStep crypto p now op g g')
    (hb : g.deletedAt = none) (hd : g'.deletedAt = none) : ∃ after, OneOwner g' after := by
  have ht := hs.touch
  have hk : (∀ next, ¬Succession g next op) → ∃ after, OneOwner g' after :=
    fun hno => ⟨owner, h.of_touch ht hb hd hno⟩
  cases hs with
  | same => exact ⟨owner, h⟩
  | @request me request _ _ hme hn hp =>
    cases request with
    | transfer => exact h.transfer hp
    | _ => exact hk fun next hnext => by cases hnext
  | offboard => exact h.offboard (offboarded _ _ _ _) ht hb hd
  | _ => exact hk fun next hnext => by cases hnext

theorem oneOwner_created {new : NewGroup} : OneOwner (created dir me new now) me := by
  refine ⟨isMember_of_loadMember loadMember_created_self, fun who => ⟨fun hr => ?_, ?_⟩⟩
  · by_contra hne
    obtain ⟨m, hm, hr⟩ := map_eq_some_iff.mp hr
    exact (invited_of_created hne hm).2.2 hr
  · rintro rfl
    exact roleOf_of_loadMember loadMember_created_self

theorem Postbox.Reachable.oneOwner (h : Reachable crypto p) (hg : p.groups.lookup gid = some g)
    (hd : g.deletedAt = none) : ∃ owner, OneOwner g owner := by
  refine h.groups (fun _ g => g.deletedAt = none → ∃ owner, OneOwner g owner)
    (fun _ _ _ _ => ⟨_, oneOwner_created⟩) (fun _ _ hs ho ha => ?_) hg hd
  have hb := hs.notDeleted ha
  obtain ⟨owner, howner⟩ := ho hb
  exact howner.step hs hb ha

/-! ## Every operation -/

/-- On whose behalf a mailbox's own device or session acts. -/
def Op.caller : Op → Option Mailbox
  | .create me _ | .request me _ _ | .registerDevice me _ _ | .revokeDevice me _
  | .uploadKeyPackages me _ _ _ | .claim me _ _ _ | .commit me _ _ _ => some me
  | _ => none

/-- How an admin loses the role or the membership. -/
inductive AdminLoss (g : Group) (who : Mailbox) : Op → Prop
  | own {gid request} : AdminLoss g who (.request who gid request)
  | owner {me gid request} (h : g.standing me = some .owner) :
    AdminLoss g who (.request me gid request)
  | offboard {mailbox actor} (h : mailbox = who ∨ g.roleOf mailbox = some .owner) :
    AdminLoss g who (.offboard mailbox actor)

/-- A mailbox keeps its standing unless there are grounds to change it, it enters, or the group
is purged. -/
theorem Touch.standing (ht : Touch dir op g g' who) : g'.standing who = g.standing who ∨
      (∃ m, g.loadMember who = some m ∧ Grounds g m op) ∨
      g.standing who = none ∧ Entry dir g who op ∨ g.deletedAt.isSome = true := by
  cases ht with
  | kept hkept => exact .inl (standing_congr hkept)
  | gone ho hgone =>
    rcases ho with ho | hd
    · refine .inl ?_
      rw [standing_of_isMember ho, Group.standing, hgone]
      rfl
    · exact .inr (.inr (.inr hd))
  | invited _ _ ho _ hnew hs =>
    refine .inl ?_
    rw [standing_of_isMember ho, standing_of_loadMember hnew, hs]
    rfl
  | out hm _ _ _ _ hg | role hm _ _ _ hg => exact .inr (.inl ⟨_, hm, hg⟩)
  | banned hm ho hnew hs =>
    refine .inl ?_
    rw [standing_of_loadMember hm, ho, standing_of_loadMember hnew, hs]
    rfl
  | keying _ ho _ he =>
    exact .inr (.inr (.inl ⟨standing_of_isMember ho, he⟩))
  | activated hm hk hnew =>
    refine .inl ?_
    rw [standing_of_loadMember hm, standing_of_loadMember hnew, hk]
    rfl

theorem Grounds.adminLoss (h : Grounds g m op) (hr : m.role = .admin) :
    AdminLoss g m.member op := by
  cases h with
  | own => exact .own
  | admin hactor ha _ ho =>
    refine .owner ?_
    rw [standing_of_loadMember hactor, ha, ho hr]
    rfl
  | offboard h => exact .offboard h

theorem Grounds.standing (h : Grounds g m op) (hc : op.caller = some me)
    (ho : m.member ≠ me) : g.standing me = some .owner ∨ g.standing me = some .admin := by
  cases h with
  | own => exact absurd (some.inj hc) ho
  | admin hactor ha hadmin =>
    cases hc
    rw [standing_of_loadMember hactor, ha]
    simpa [isAdmin, MemberState.isLive] using hadmin
  | offboard => cases hc

/-- Nobody enters by another's call, but into a room its owner opens. -/
theorem Entry.standing (h : Entry dir g who op) (hc : op.caller = some me)
    (ho : who ≠ me) : g.standing me = some .owner := by
  cases h with
  | accept | join => exact absurd (some.inj hc) ho
  | onboard => cases hc
  | opened _ hcom =>
    cases hc
    obtain ⟨m, hm, hr, hk⟩ := hcom
    rw [standing_of_loadMember hm, hk, hr]
    rfl

/-- What one operation may do to the authority in a group. -/
structure Authorized (op : Op) (g g' : Group) : Prop where
  owner : g'.deletedAt = none → ∀ who, g'.roleOf who = some .owner → g.roleOf who ≠ some .owner →
    Succession g who op
  admin : ∀ who, g.standing who = some .admin → g'.standing who ≠ some .admin → AdminLoss g who op
  others : ∀ me, op.caller = some me → g.standing me ≠ some .owner → g.standing me ≠ some .admin →
    ∀ who, who ≠ me → g'.standing who = g.standing who

theorem Postbox.GroupStep.authorized (h : GroupStep crypto p now op g g')
    (hd : g.deletedAt = none) : Authorized op g g' := by
  refine ⟨fun hafter who hr hb => ?_, fun who ha hl => ?_, fun me hcal ho ha who hother => ?_⟩
  · exact ((h.touch who).owner_before hafter hr).resolve_left hb
  · obtain ⟨m, hm, hr⟩ := exists_of_standing ha
    rcases (h.touch who).standing with hk | ⟨m', hm', hg⟩ | ⟨hn, -⟩ | hp
    · exact absurd (hk.trans ha) hl
    · cases hm.symm.trans hm'
      exact member_of_loadMember hm ▸ hg.adminLoss hr
    · cases hn.symm.trans ha
    · rw [hd] at hp
      cases hp
  · rcases (h.touch who).standing with hk | ⟨m, hm, hg⟩ | ⟨-, he⟩ | hp
    · exact hk
    · have hmem := member_of_loadMember hm
      rcases hg.standing hcal (hmem.symm ▸ hother) with hc | hc
      · exact absurd hc ho
      · exact absurd hc ha
    · exact absurd (he.standing hcal hother) ho
    · rw [hd] at hp
      cases hp

/-- In every run a group that is not deleted has one owner. The next operation passes ownership
on only by the owner's transfer or offboarding, takes from an admin only on behalf of the owner or
that admin or by offboarding, and changes nobody's standing but the caller's for anyone else. -/
theorem group_authority (crypto : GroupCrypto) (ops : List (ℕ × Op)) (gid : GroupId) {g : Group}
    (hg : (run crypto ops).1.groups.lookup gid = some g) (hdeleted : g.deletedAt = none) :
    (∃ owner, OneOwner g owner) ∧
      ∀ now op p' events g', (run crypto ops).1.handle crypto now op = .ok (p', events) →
        p'.groups.lookup gid = some g' → Authorized op g g' := by
  refine ⟨(reachable_run crypto ops).oneOwner hg hdeleted, fun now op p' events g' hh hg' => ?_⟩
  obtain ⟨after, ha, hs⟩ := exists_groupStep hh hg
  cases hg'.symm.trans ha
  exact hs.authorized hdeleted

namespace Sample

/-- Two more members, one of them made an admin. -/
def appointing : List (ℕ × Op) :=
  opening ++ [(2, .mint [3]), (2, .registerDevice [3] device signatureKey),
    (2, .request other group (.join none)), (2, .request [3] group (.join none)),
    (3, .request Sample.owner group (.patchMember other 1 (.role .admin) none))]

def demotion : Op := .request Sample.owner group (.patchMember other 2 (.role .member) none)

/-- The owner takes the role back. -/
theorem group_authority_demotion : ∃ g g',
    [Sample.owner, other, [3]].map g.standing = [some .owner, some .admin, some .member] ∧
      g'.standing other = some .member ∧ (∃ owner, OneOwner g owner) ∧
      Authorized demotion g g' := by
  have hb : ((run Sample.crypto appointing).1.groups.lookup group).any fun g =>
      g.deletedAt = none ∧
        [Sample.owner, other, [3]].map g.standing = [some .owner, some .admin, some .member] := by
    decide +kernel
  have ha : ((run Sample.crypto appointing).1.handle Sample.crypto 4 demotion).toOption.any
      fun after => (after.1.groups.lookup group).any (·.standing other = some .member) := by
    decide +kernel
  obtain ⟨g, hg, hs⟩ := (any_eq_true _ _).mp hb
  obtain ⟨hd, hs⟩ := of_decide_eq_true hs
  obtain ⟨hone, hauth⟩ := group_authority Sample.crypto appointing group hg hd
  cases hh : (run Sample.crypto appointing).1.handle Sample.crypto 4 demotion with
  | error =>
    rw [hh] at ha
    cases ha
  | ok after =>
    rw [hh] at ha
    obtain ⟨g', hg', hs'⟩ := (any_eq_true _ (after.1.groups.lookup group)).mp ha
    exact ⟨g, g', hs, of_decide_eq_true hs', hone, hauth 4 demotion _ _ g' hh hg'⟩

end Sample

/-- No operation brings a deleted group back or takes its id for another. -/
theorem deletion_final (crypto : GroupCrypto) {ops : List (ℕ × Op)} {gid : GroupId} {g : Group}
    (hg : (run crypto ops).1.groups.lookup gid = some g) (hd : g.deletedAt.isSome = true)
    (later : List (ℕ × Op)) : ∃ g', (run crypto (ops ++ later)).1.groups.lookup gid = some g' ∧
      g'.deletedAt.isSome = true :=
  exists_later (·.deletedAt.isSome = true) (fun _ => True) hg hd (fun _ _ => trivial)
    fun _ _ hs _ hd => hs.frame.deleted hd

theorem Sample.deletion_final_recreated : ∃ g, (run Sample.crypto (Sample.opening ++
      [(9, .request Sample.owner Sample.group .delete)] ++
      [(10, .create Sample.owner Sample.newGroup)])).1.groups.lookup Sample.group = some g ∧
    g.deletedAt.isSome = true := by
  have hs : ((run Sample.crypto (Sample.opening ++
      [(9, .request Sample.owner Sample.group .delete)])).1.groups.lookup Sample.group).any
      (·.deletedAt.isSome) = true := by decide +kernel
  obtain ⟨g, hg, hd⟩ := (any_eq_true _ _).mp hs
  exact deletion_final Sample.crypto hg hd _

end Pigeonpost.Groups
