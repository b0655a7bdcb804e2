import Pigeonpost.Verification.Group.Effects

/-! # What a step of the postbox does to one group

Invitations and commits as changes of single rows, the step of one group for each operation,
and the rule that an invariant kept by every such step holds in every reachable postbox. -/

namespace Pigeonpost.Groups

namespace Group

open List

variable {crypto : GroupCrypto} {dir : Directory} {claims : List KpClaim} {me who : Mailbox}
  {device : DeviceId} {req : CommitReq} {now seq epoch : ℕ} {g g' g₁ g₂ : Group}

theorem isMember_of_loadMember {m : MemberRow} (h : g.loadMember who = some m) :
    g.isMember who = m.state.isLive := by
  simp [isMember, h]

/-! ## Invitations -/

variable {named : List Mailbox}

/-- Some of the named mailboxes that are neither members nor banned hold an invitation now. -/
structure Invites (named : List Mailbox) (g g' : Group) : Prop where
  aside : g'.aside = g.aside
  member : ∀ who, g'.loadMember who = g.loadMember who ∨
    (who ∈ named ∧ g.isBanned who = false ∧ g.isMember who = false ∧
      ∃ m, g'.loadMember who = some m ∧ m.state = .invited ∧
        (m.role = .owner → g.roleOf who = some .owner))

theorem Invites.refl (named : List Mailbox) (g : Group) : Invites named g g :=
  ⟨rfl, fun _ => .inl rfl⟩

theorem Invites.isBanned (h : Invites named g g') : g'.isBanned who = g.isBanned who := by
  unfold Group.isBanned
  rw [bans_of_aside h.aside]

theorem Invites.isMember (h : Invites named g g') : g'.isMember who = g.isMember who := by
  rcases h.member who with heq | ⟨-, -, ho, m, hm, hinv, -⟩
  · unfold Group.isMember
    rw [heq]
  · rw [ho, isMember_of_loadMember hm, hinv]
    rfl

theorem Invites.trans (h : Invites named g g₁) (h' : Invites named g₁ g₂) : Invites named g g₂ where
  aside := h'.aside.trans h.aside
  member := by
    intro who
    rcases h'.member who with he' | ⟨hn, hb, hout, m, hm, hinv, hr⟩
    · rw [he']
      exact h.member who
    · refine .inr ⟨hn, h.isBanned ▸ hb, h.isMember ▸ hout, m, hm, hinv, fun ho => ?_⟩
      have hmid := hr ho
      rcases h.member who with heq | ⟨-, -, -, m₁, hm₁, -, hrole₁⟩
      · rwa [roleOf, heq] at hmid
      · rw [roleOf, hm₁] at hmid
        exact hrole₁ (Option.some.inj hmid)

theorem invites_releaseInvitation (inviter : Mailbox) (now : ℕ) (g : Group) :
    Invites named g (g.releaseInvitation inviter now) := by
  unfold releaseInvitation
  split
  · exact ⟨rfl, fun _ => .inl rfl⟩
  · exact Invites.refl named g

theorem invites_putMember {row : MemberRow} (hn : row.member ∈ named)
    (hb : g.isBanned row.member = false) (ho : g.isMember row.member = false)
    (hinv : row.state = .invited) (hr : row.role = .owner → g.roleOf row.member = some .owner) :
    Invites named g (g.putMember row) := by
  refine ⟨rfl, fun who => ?_⟩
  rw [loadMember_putMember]
  split
  · rename_i heq
    subst heq
    exact .inr ⟨hn, hb, ho, row, rfl, hinv, hr⟩
  · exact .inl rfl

theorem invites_inviteOne (cap : ℕ) (inviter : Mailbox) (now : ℕ) (g : Group) {i : Invitee}
    (hn : ∀ who ∈ i.target, who ∈ named) : Invites named g (g.inviteOne cap inviter now i).1 := by
  unfold inviteOne
  cases hr : i.refusal with
  | some => exact Invites.refl named g
  | none =>
    have hn : i.address.getD [] ∈ named := hn _ (by simp [Invitee.target, hr])
    by_cases hb : g.isBanned (i.address.getD []) = true
    · rw [if_pos hb]
      exact Invites.refl named g
    · rw [if_neg hb]
      have hb : g.isBanned (i.address.getD []) = false := by simpa using hb
      cases hl : g.loadMember (i.address.getD []) with
      | none =>
        dsimp only
        split
        · exact Invites.refl named g
        · refine Invites.trans ?_ (invites_releaseInvitation _ _ _)
          have hout : g.isMember (i.address.getD []) = false := by simp [isMember, hl]
          exact invites_putMember hn hb hout rfl fun h => by cases h
      | some m =>
        have hm := member_of_loadMember hl
        rw [← hm] at hb hl hn
        dsimp only
        by_cases hlive : m.state.isLive = true
        · rw [if_pos hlive]
          exact Invites.refl named g
        · rw [if_neg hlive]
          have hout : g.isMember m.member = false := by
            simpa [isMember_of_loadMember hl] using hlive
          split
          · rename_i hinv
            refine Invites.trans ?_ (invites_releaseInvitation _ _ _)
            exact invites_putMember hn hb hout hinv fun ho => by simpa [roleOf, hl] using ho
          · refine Invites.trans ?_ (invites_releaseInvitation _ _ _)
            exact invites_putMember hn hb hout rfl fun h => by cases h

theorem invites_inviteAll (cap : ℕ) (inviter : Mailbox) (now : ℕ) (g : Group)
    (invitees : List Invitee) :
    Invites (invitees.filterMap Invitee.target) g (g.inviteAll cap inviter now invitees).1 := by
  have ha : ∀ named, (∀ i ∈ invitees, ∀ who ∈ i.target, who ∈ named) →
      Invites named g (g.inviteAll cap inviter now invitees).1 := by
    intro named hn
    induction invitees generalizing g with
    | nil => exact Invites.refl named g
    | cons i _ ih =>
      refine (invites_inviteOne cap inviter now g (hn i mem_cons_self)).trans (ih _ ?_)
      exact fun j hj => hn j (mem_cons_of_mem i hj)
  exact ha _ fun i hi who hw => mem_filterMap.mpr ⟨i, hi, hw⟩

/-! ## Commits -/

/-- What happens after the keying members of a commit became active. -/
def finishCommit (dir : Directory) (me : Mailbox) (now : ℕ) (g mid : Group)
    (activated : List Mailbox) : Group :=
  if g.activationState = .provisioning then
    (mid.activateGroup dir me now).noticeJoined now (activated.filter (· ≠ me))
  else mid.noticeJoined now activated

/-- What let an accepted commit through, and the stages of its writes. -/
structure Accepted (dir : Directory) (me : Mailbox) (device : DeviceId) (req : CommitReq) (now : ℕ)
    (g committed mid g' : Group) : Prop where
  notDeleted : g.deletedAt = none
  mayCommit : g.mayCommit me device = true
  leaves : g.commitLeaves me device req now = .ok committed
  activated : committed.activateAll g.nextSeq (g.epoch + 1) now committed.activatable = .ok mid
  finish : finishCommit dir me now g mid committed.activatable = g'

theorem applyCommit_eq_ok (h : g.applyCommit crypto dir claims me device req now = .ok g') :
    ∃ committed mid, Accepted dir me device req now g committed mid g' := by
  simp only [applyCommit, ok_iff, live_eq_ok] at h
  obtain ⟨-, hdel, hm, -, -, -, -, -, -, -, -, -, committed, hl, mid, hact, h⟩ := h
  refine ⟨committed, mid, hdel, by simpa using hm, hl, hact, ?_⟩
  by_cases hp : g.activationState = .provisioning
  · rw [if_pos hp] at h
    rw [finishCommit, if_pos hp]
    exact pure_eq_ok.mp h
  · rw [if_neg hp] at h
    rw [finishCommit, if_neg hp]
    exact pure_eq_ok.mp h

theorem quiet_addLeaves {adds : List AddRef}
    (h : addLeaves seq epoch now g adds = .ok g') : Quiet g g' := by
  induction adds generalizing g with
  | nil => exact Except.ok.inj h ▸ Quiet.refl g
  | cons _ _ ih =>
    simp only [addLeaves, ok_iff] at h
    obtain ⟨leaves, -, h⟩ := h
    refine Quiet.trans ?_ (ih h)
    rfl

theorem quiet_commitLeaves (h : g.commitLeaves me device req now = .ok g') : Quiet g g' := by
  simp only [commitLeaves, ok_iff] at h
  obtain ⟨handshakes, -, added, ha, rfl⟩ := h
  have hq := quiet_addLeaves ha
  exact hq

def activeRow (m : MemberRow) (seq now : ℕ) : MemberRow :=
  { m with
    state := .active, membershipVersion := m.membershipVersion + 1, joinedAt := some now
    joinSeq := some seq, readCursor := max m.readCursor seq, revision := m.revision + 1
    updatedAt := now }

/-- Keying members became active; nobody else changed. -/
structure Activates (seq now : ℕ) (woken : List Mailbox) (g g' : Group) : Prop where
  aside : g'.aside = g.aside
  other : ∀ who, who ∉ woken → g'.loadMember who = g.loadMember who
  member : ∀ who ∈ woken, ∃ m, g.loadMember who = some m ∧
    g'.loadMember who = some (activeRow m seq now)

theorem activate_eq_ok (h : g.activate seq epoch now who = .ok g') :
    ∃ m intervals, g.loadMember who = some m ∧
      { g.putMember (activeRow m seq now) with intervals } = g' := by
  simp only [activate, ok_iff] at h
  obtain ⟨m, hm, intervals, -, rfl⟩ := h
  exact ⟨m, intervals, hm, rfl⟩

theorem loadMember_activate (h : g.activate seq epoch now who = .ok g')
    (other : Mailbox) : g'.loadMember other =
      if who = other then (g.loadMember who).map (activeRow · seq now) else g.loadMember other := by
  obtain ⟨m, intervals, hm, rfl⟩ := activate_eq_ok h
  rw [hm, ← member_of_loadMember hm]
  exact loadMember_putMember (activeRow m seq now)

theorem activates_activateAll {woken : List Mailbox} (hn : woken.Nodup)
    (h : g.activateAll seq epoch now woken = .ok g') : Activates seq now woken g g' := by
  induction woken generalizing g with
  | nil =>
    cases h
    exact ⟨rfl, fun _ _ => rfl, nofun⟩
  | cons first _ ih =>
    simp only [activateAll, ok_iff] at h
    obtain ⟨mid, hf, hr⟩ := h
    obtain ⟨hnm, hn⟩ := nodup_cons.mp hn
    have hl := loadMember_activate hf
    have ih := ih hn hr
    obtain ⟨m, intervals, hm, rfl⟩ := activate_eq_ok hf
    refine ⟨ih.aside, fun who hw => ?_, fun who hw => ?_⟩
    · obtain ⟨hne, hr⟩ := not_or.mp (mt mem_cons.mpr hw)
      rw [ih.other who hr, hl, if_neg (Ne.symm hne)]
    · rcases mem_cons.mp hw with rfl | hmem
      · refine ⟨m, hm, ?_⟩
        rw [ih.other who hnm, hl, if_pos rfl, hm]
        rfl
      · obtain ⟨m', hm', ha⟩ := ih.member who hmem
        have hne : first ≠ who := fun heq => hnm (heq ▸ hmem)
        rw [hl, if_neg hne] at hm'
        exact ⟨m', hm', ha⟩

theorem nodup_activatable (g : Group) : g.activatable.Nodup := by
  exact List.Nodup.sublist (List.Sublist.map _ filter_sublist) g.members.nodup

theorem mem_activatable (h : who ∈ g.activatable) :
    ∃ m, g.loadMember who = some m ∧ m.state = .keying := by
  simp only [activatable, mem_map, mem_filter, decide_eq_true_eq, loadMember,
    KeyedTable.lookup_eq_some] at h ⊢
  obtain ⟨m, ⟨hm, hk, -⟩, rfl⟩ := h
  exact ⟨m, ⟨hm, rfl⟩, hk⟩

/-- Notices were written, and nothing else. -/
def Noticed (g g' : Group) : Prop := ∃ lastSeq notices, g' = { g with lastSeq, notices }

theorem Noticed.trans (h : Noticed g g₁) (h' : Noticed g₁ g₂) : Noticed g g₂ := by
  obtain ⟨_, _, rfl⟩ := h
  obtain ⟨_, _, rfl⟩ := h'
  exact ⟨_, _, rfl⟩

theorem Noticed.quiet (h : Noticed g g') : Quiet g g' := by
  obtain ⟨_, _, rfl⟩ := h
  rfl

theorem noticed_noticeJoined (now : ℕ) (g : Group) (joined : List Mailbox) :
    Noticed g (g.noticeJoined now joined) := by
  induction joined generalizing g with
  | nil => exact ⟨_, _, rfl⟩
  | cons _ _ ih => exact Noticed.trans ⟨_, _, rfl⟩ (ih _)

theorem noticed_releaseAll (me : Mailbox) (now : ℕ) (g : Group) (rows : List MemberRow) :
    Noticed g (g.releaseAll me now rows) := by
  induction rows generalizing g with
  | nil => exact ⟨_, _, rfl⟩
  | cons _ _ ih =>
    refine Noticed.trans ?_ (ih _)
    unfold releaseInvitation
    split <;> exact ⟨_, _, rfl⟩

theorem loadMember_queueAll (now : ℕ) (g : Group) (queue : List Mailbox) :
    (g.queueAll now queue).loadMember who = g.loadMember who ∨
      g.loadMember who = none ∧ who ∈ queue ∧
        (g.queueAll now queue).loadMember who = some (MemberRow.new who .member .keying now) := by
  induction queue generalizing g with
  | nil => exact .inl rfl
  | cons first _ ih =>
    rw [queueAll]
    by_cases hn : (g.loadMember first).isNone = true
    · rw [if_pos hn]
      have hn : g.loadMember first = none := by simpa using hn
      by_cases hw : first = who
      · subst hw
        have hr : (g.startKeying first now).loadMember first =
            some (MemberRow.new first .member .keying now) := by
          rw [loadMember_startKeying, if_pos rfl, keyingRow, hn]
        rcases ih (g.startKeying first now) with heq | ⟨hc, -⟩
        · exact .inr ⟨hn, mem_cons_self, heq.trans hr⟩
        · cases hr.symm.trans hc
      · have hs : (g.startKeying first now).loadMember who = g.loadMember who := by
          rw [loadMember_startKeying, if_neg hw]
        rcases ih (g.startKeying first now) with heq | ⟨ho, hm, hr⟩
        · exact .inl (heq.trans hs)
        · exact .inr ⟨hs ▸ ho, mem_cons_of_mem _ hm, hr⟩
    · rw [if_neg hn]
      exact (ih g).imp_right fun h => ⟨h.1, mem_cons_of_mem _ h.2.1, h.2.2⟩

theorem queueAll_eq (now : ℕ) (g : Group) (queue : List Mailbox) :
    ∃ members, g.queueAll now queue = { g with members } := by
  induction queue generalizing g with
  | nil => exact ⟨g.members, rfl⟩
  | cons first _ ih =>
    rw [queueAll]
    split
    · rw [startKeying_eq]
      obtain ⟨members, h⟩ := ih (g.putMember (g.keyingRow first now))
      exact ⟨members, h⟩
    · exact ih g

theorem onRoomActivated_eq (dir : Directory) (now : ℕ) (g : Group) :
    ∃ members, g.onRoomActivated dir now = { g with members } := by
  unfold onRoomActivated
  split
  · split
    · exact queueAll_eq now g _
    · exact ⟨g.members, rfl⟩
  · exact ⟨g.members, rfl⟩

theorem loadMember_onRoomActivated (dir : Directory) (now : ℕ) (g : Group) (who : Mailbox) :
    (g.onRoomActivated dir now).loadMember who = g.loadMember who ∨
      g.loadMember who = none ∧
        (∃ org, g.orgId.bind dir.orgs.lookup = some org ∧
          ∃ seat ∈ org.members, seat.identity = some who) ∧
        (g.onRoomActivated dir now).loadMember who =
          some (MemberRow.new who .member .keying now) := by
  unfold onRoomActivated
  cases ho : g.orgId.bind dir.orgs.lookup with
  | none => exact .inl rfl
  | some org =>
    dsimp only
    split
    · refine (loadMember_queueAll now g _).imp_right ?_
      rintro ⟨hn, hm, hr⟩
      obtain ⟨seat, hs, hide⟩ := mem_filterMap.mp hm
      refine ⟨hn, ⟨org, rfl, seat, hs, ?_⟩, hr⟩
      split at hide
      · exact hide
      · cases hide
    · exact .inl rfl

/-! ## Accepted commits, row by row -/

section Commits

variable {committed mid : Group}

section

variable (h : Accepted dir me device req now g committed mid g')

include h

theorem Accepted.activates : Activates g.nextSeq now committed.activatable committed mid :=
  activates_activateAll (nodup_activatable committed) h.activated

theorem Accepted.quiet : Quiet g committed := quiet_commitLeaves h.leaves

theorem Accepted.aside : mid.aside = g.aside := h.activates.aside.trans h.quiet.aside

theorem Accepted.finish_cases : (g.activationState ≠ .provisioning ∧ Noticed mid g') ∨
      (g.activationState = .provisioning ∧ ∃ opened,
        Noticed { mid with activationState := .active } opened ∧
        Noticed (opened.onRoomActivated dir now) g') := by
  rw [← h.finish, finishCommit]
  by_cases hp : g.activationState = .provisioning
  · rw [if_pos hp]
    refine .inr ⟨hp, _, Noticed.trans ?_ (noticed_releaseAll _ _ _ _), noticed_noticeJoined _ _ _⟩
    exact ⟨_, _, rfl⟩
  · rw [if_neg hp]
    exact .inl ⟨hp, noticed_noticeJoined _ _ _⟩

/-- Only the keying owner commits to a group that is not open yet. -/
theorem Accepted.committer (hp : g.activationState = .provisioning) :
    ∃ m, g.loadMember me = some m ∧ m.role = .owner ∧ m.state = .keying := by
  have hmay := h.mayCommit
  unfold Group.mayCommit at hmay
  split at hmay
  · cases hmay
  · rename_i m hm
    simp only [if_pos hp, Bool.and_eq_true, beq_iff_eq] at hmay
    exact ⟨m, hm, hmay⟩

/-- What a commit does to one mailbox: nothing, activation, or the queue of a room that opens. -/
theorem Accepted.member (who : Mailbox) : g'.loadMember who = g.loadMember who ∨
      (∃ m, g.loadMember who = some m ∧ m.state = .keying ∧
        g'.loadMember who = some (activeRow m g.nextSeq now)) ∨
      (g.activationState = .provisioning ∧ g.loadMember who = none ∧
        (∃ org, g.orgId.bind dir.orgs.lookup = some org ∧
          ∃ seat ∈ org.members, seat.identity = some who) ∧
        g'.loadMember who = some (MemberRow.new who .member .keying now)) := by
  have hmid : mid.loadMember who = g.loadMember who ∨
      ∃ m, g.loadMember who = some m ∧ m.state = .keying ∧
        mid.loadMember who = some (activeRow m g.nextSeq now) := by
    by_cases hmem : who ∈ committed.activatable
    · obtain ⟨m, hm, ha⟩ := h.activates.member who hmem
      obtain ⟨m', hm', hk⟩ := mem_activatable hmem
      cases hm'.symm.trans hm
      exact .inr ⟨m, h.quiet.loadMember ▸ hm', hk, ha⟩
    · exact .inl ((h.activates.other who hmem).trans h.quiet.loadMember)
  rcases h.finish_cases with ⟨-, he⟩ | ⟨hp, opened, ho, he⟩
  · rw [he.quiet.loadMember]
    exact hmid.imp_right .inl
  · rw [he.quiet.loadMember]
    have hl : opened.loadMember who = mid.loadMember who := ho.quiet.loadMember
    have horg : opened.orgId = mid.orgId := by
      obtain ⟨_, _, rfl⟩ := ho
      rfl
    rcases loadMember_onRoomActivated dir now opened who with hsame | ⟨hn, hseat, hr⟩
    · rw [hsame, hl]
      exact hmid.imp_right .inl
    · rw [hl] at hn
      rw [horg, orgId_of_aside h.aside] at hseat
      rcases hmid with heq | ⟨m, -, -, ha⟩
      · exact .inr (.inr ⟨hp, heq ▸ hn, hseat, hr⟩)
      · cases hn.symm.trans ha

/-- What a commit leaves as it is. -/
theorem Accepted.settled : (g'.id, g'.deletedAt, g'.bans) = (g.id, g.deletedAt, g.bans) := by
  have hmid : (mid.id, mid.deletedAt, mid.bans) = (g.id, g.deletedAt, g.bans) :=
    congrArg (fun a => (a.1, a.2.2.1, a.2.2.2.2)) h.aside
  rw [← hmid]
  rcases h.finish_cases with ⟨-, _, _, rfl⟩ | ⟨-, opened, ⟨_, _, rfl⟩, _, _, rfl⟩
  · rfl
  · obtain ⟨members, hr⟩ := onRoomActivated_eq dir now
      { mid with activationState := .active, lastSeq := _, notices := _ }
    rw [hr]

theorem Accepted.activationState : g'.activationState = .active := by
  rcases h.finish_cases with ⟨ha, he⟩ | ⟨-, opened, ho, he⟩
  · rw [activationState_of_aside he.quiet.aside, activationState_of_aside h.aside]
    cases hs : g.activationState with
    | provisioning => exact absurd hs ha
    | active => rfl
  · obtain ⟨members, hr⟩ := onRoomActivated_eq dir now opened
    rw [activationState_of_aside he.quiet.aside, hr]
    exact activationState_of_aside ho.quiet.aside

end

end Commits

end Group

end Pigeonpost.Groups
