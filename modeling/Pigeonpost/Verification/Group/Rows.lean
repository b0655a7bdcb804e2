import Pigeonpost.Verification.Group.Runs

/-! # What a step does to one mailbox

Every step of a group leaves a mailbox as it stands, or does one of a few things to its row,
each with the grounds it needs. The laws about bans, authority and size are case analyses over
these. -/

namespace Pigeonpost.Groups

open Postbox KeyedTable Groups.Group

/-- What of a row decides about membership. -/
def MemberRow.standing (m : MemberRow) : Role × MemberState := (m.role, m.state)

/-- Why a member may be taken out or get another role. -/
inductive Grounds (g : Group) (m : MemberRow) : Op → Prop
  | own {gid request} : Grounds g m (.request m.member gid request)
  | admin {me gid request actor} (hactor : g.loadMember me = some actor)
    (hactive : actor.state = .active) (hadmin : isAdmin actor = true)
    (howner : m.role = .admin → actor.role = .owner) : Grounds g m (.request me gid request)
  | offboard {mailbox actor} (h : mailbox = m.member ∨ g.roleOf mailbox = some .owner) :
    Grounds g m (.offboard mailbox actor)

/-- How a mailbox comes to own a group. -/
inductive Succession (g : Group) (who : Mailbox) : Op → Prop
  | transfer {me gid revision} (h : g.roleOf me = some .owner) :
    Succession g who (.request me gid (.transfer who revision))
  | offboard {mailbox actor} (h : g.roleOf mailbox = some .owner) :
    Succession g who (.offboard mailbox actor)

/-- How a mailbox comes to wait for its keys. -/
inductive Entry (dir : Directory) (g : Group) (who : Mailbox) : Op → Prop
  | accept {gid} (hinvited : g.stateOf who = some .invited) :
    Entry dir g who (.request who gid (.respond true))
  | join {gid link} (hknown : who ∈ dir.identities) (hbanned : g.isBanned who = false) :
    Entry dir g who (.request who gid (.join link))
  | onboard {org} (hfresh : who ∉ dir.identities) : Entry dir g who (.onboard org who)
  | opened {me device gid req} (hprovisioning : g.activationState = .provisioning)
    (hcommitter : ∃ m, g.loadMember me = some m ∧ m.role = .owner ∧ m.state = .keying)
    (hseat : ∃ org, g.orgId.bind dir.orgs.lookup = some org ∧
      ∃ seat ∈ org.members, seat.identity = some who) :
    Entry dir g who (.commit me device gid req)

/-- What a step does to the row of one mailbox. -/
inductive Touch (dir : Directory) (op : Op) (g g' : Group) (who : Mailbox) : Prop
  | kept
    (h : (g'.loadMember who).map MemberRow.standing = (g.loadMember who).map MemberRow.standing)
  | gone (hout : g.isMember who = false ∨ g.deletedAt.isSome = true) (h : g'.loadMember who = none)
  | invited {m'} (hdeleted : g.deletedAt = none) (hknown : who ∈ dir.identities)
    (hout : g.isMember who = false) (hbanned : g.isBanned who = false)
    (h : g'.loadMember who = some m') (hstate : m'.state = .invited)
    (hrole : m'.role = .owner → g.roleOf who = some .owner)
  | out {m m'} (hm : g.loadMember who = some m) (hlive : m.state.isLive = true)
    (h : g'.loadMember who = some m') (hstate : m'.state.isLive = false)
    (hrole : m'.role = .owner → g'.deletedAt.isSome = true) (hgrounds : Grounds g m op)
    (howner : m.role = .owner → m'.role = .owner ∨ ∃ next, Succession g next op)
  | banned {m m'} (hm : g.loadMember who = some m) (hout : m.state.isLive = false)
    (h : g'.loadMember who = some m') (hstate : m'.state = .banned) (hrole : m'.role ≠ .owner)
  | keying {now} (hdeleted : g.deletedAt = none) (hout : g.isMember who = false)
    (h : g'.loadMember who = some (g.keyingRow who now)) (hentry : Entry dir g who op)
  | activated {m seq now} (hm : g.loadMember who = some m) (hkeying : m.state = .keying)
    (h : g'.loadMember who = some (Group.activeRow m seq now))
    (hopened : g'.activationState = .active)
  | role {m m'} (hm : g.loadMember who = some m) (hlive : m.state.isLive = true)
    (h : g'.loadMember who = some m') (hstate : m'.state = m.state) (hgrounds : Grounds g m op)
    (howner : m'.role = .owner → Succession g who op)
    (hpassed : m.role = .owner → ∃ next, Succession g next op)

variable {actor address mailbox : Mailbox} {role : Role}

namespace Group

variable {crypto : GroupCrypto} {dir : Directory} {op : Op} {me who : Mailbox} {now : ℕ}
  {g g' : Group}
variable {m : MemberRow} {gid : GroupId}

theorem touch_of_eq (h : g'.loadMember who = g.loadMember who) : Touch dir op g g' who :=
  .kept (congrArg _ h)

theorem touch_takeOut {newState : MemberState} (hm : g.loadMember m.member = some m)
    (hl : m.state.isLive = true) (hs : newState.isLive = false) (hr : m.role ≠ .owner)
    (hg : Grounds g m op) (who : Mailbox) :
    Touch dir op g (g.takeOut m newState actor now) who := by
  by_cases heq : m.member = who
  · subst heq
    refine .out hm hl ((loadMember_takeOut m newState actor).trans (if_pos rfl)) hs ?_ hg
      fun hc => absurd hc hr
    intro hc
    simp [outRow, hr] at hc
  · exact touch_of_eq ((loadMember_takeOut m newState actor).trans (if_neg heq))

theorem isMember_of_invited (hm : g.loadMember who = some m) (hinv : m.state = .invited) :
    g.isMember who = false := by
  rw [isMember_of_loadMember hm, hinv]
  rfl

theorem touch_deleteMember (hm : g.loadMember m.member = some m) (hinv : m.state = .invited)
    (who : Mailbox) : Touch dir op g (g.deleteMember m.member) who := by
  by_cases heq : who = m.member
  · subst heq
    exact .gone (.inl (isMember_of_invited hm hinv))
      ((loadMember_deleteMember _).trans (if_pos rfl))
  · exact touch_of_eq ((loadMember_deleteMember _).trans (if_neg heq))

theorem touch_of_filter (h : g'.loadMember who =
    (g.loadMember who).filter fun m => !decide (m.state = .invited)) : Touch dir op g g' who := by
  cases hm : g.loadMember who with
  | none => exact touch_of_eq (by simp [h, hm])
  | some m =>
    by_cases hinv : m.state = .invited
    · exact .gone (.inl (isMember_of_invited hm hinv)) (by simp [h, hm, hinv])
    · exact touch_of_eq (by simp [h, hm, hinv])

theorem touch_startKeying (hd : g.deletedAt = none) (ho : g.isMember who = false)
    (he : Entry dir g who op) (other : Mailbox)
    (h : g'.loadMember other = (g.startKeying who now).loadMember other) :
    Touch dir op g g' other := by
  rw [loadMember_startKeying] at h
  by_cases heq : who = other
  · subst heq
    exact .keying hd ho (h.trans (if_pos rfl)) he
  · exact touch_of_eq (h.trans (if_neg heq))

variable {request : Request}

theorem MayRemove.grounds (h : MayRemove g me m) : Grounds g m (.request me gid request) := by
  obtain ⟨actor, hactor, ha, hadmin, hr⟩ := h.actor
  exact .admin hactor ha hadmin fun har => hr.resolve_left (not_not.mpr har)

theorem grounds_of_mayChangeRole {actor target : MemberRow} (ha : g.loadMember me = some actor)
    (hact : actor.state = .active) (hn : target.role ≠ role)
    (hm : mayChangeRole actor target role = true) : Grounds g target (.request me gid request) := by
  have hme : actor.member = me := member_of_loadMember ha
  unfold mayChangeRole at hm
  by_cases hadmin : role = .admin
  · rw [if_pos hadmin] at hm
    exact .admin ha hact hm fun hc => absurd (hc.trans hadmin.symm) hn
  · rw [if_neg hadmin] at hm
    by_cases ht : target.role = .admin
    · rw [if_pos ht] at hm
      by_cases hs : target.member = me
      · exact hs ▸ .own
      · have hr : actor.role = .owner := by simpa [hme, hs] using hm
        exact .admin ha hact (by simp [isAdmin, hr]) fun _ => hr
    · rw [if_neg ht] at hm
      exact .admin ha hact hm fun hc => absurd hc ht

theorem touch_roleRow (hm : g.loadMember m.member = some m) (hl : m.state.isLive = true)
    (hr : m.role ≠ .owner) (hg : Grounds g m op) (ho : role ≠ .owner) (who : Mailbox) :
    Touch dir op g
      ((g.putMember (roleRow m role now)).addNotice .roleChanged (some me) now) who := by
  by_cases heq : m.member = who
  · subst heq
    exact .role hm hl (loadMember_putMember_self (roleRow m role now)) rfl hg
      (fun hc => absurd hc ho) fun hc => absurd hc hr
  · exact touch_of_eq ((loadMember_putMember (roleRow m role now)).trans (if_neg heq))

theorem touch_of_invites {named : List Mailbox} (h : Invites named g g') (hd : g.deletedAt = none)
    (hn : ∀ who ∈ named, who ∈ dir.identities) (who : Mailbox) : Touch dir op g g' who := by
  rcases h.member who with heq | ⟨hmem, hb, ho, m, hm, hs, hr⟩
  · exact touch_of_eq heq
  · exact .invited hd (hn who hmem) ho hb hm hs hr

theorem touch_unban (who : Mailbox) :
    Touch dir op g { g with
      bans := g.bans.delete fun row => row.member = address
      members := g.members.delete fun row => row.member = address ∧ row.state = .banned } who := by
  cases hm : g.loadMember who with
  | none =>
    refine touch_of_eq (Eq.trans lookup_delete ?_)
    rw [show g.members.lookup who = none from hm, hm]
    rfl
  | some m =>
    have hl : g.members.lookup who = some m := hm
    by_cases hg : m.member = address ∧ m.state = .banned
    · refine .gone (.inl ?_) (Eq.trans lookup_delete ?_)
      · rw [isMember_of_loadMember hm, hg.2]
        rfl
      · rw [hl]
        simp [hg]
    · refine touch_of_eq (Eq.trans lookup_delete ?_)
      rw [hl, hm]
      simpa using not_and_or.mp hg

theorem touch_leaveLast (hm : g.loadMember m.member = some m)
    (hl : m.state.isLive = true) (hg : Grounds g m op) (who : Mailbox) :
    Touch dir op g ((g.deleteIn now).putMember { m with state := .left, updatedAt := now })
      who := by
  by_cases heq : m.member = who
  · subst heq
    exact .out hm hl (loadMember_putMember_self { m with state := .left, updatedAt := now }) rfl
      (fun _ => rfl) hg .inl
  · refine touch_of_filter ?_
    rw [loadMember_putMember, if_neg heq, loadMember_deleteIn]

theorem loadMember_transfer (g : Group) (who : Mailbox) (m target : MemberRow) (now : ℕ) :
    (g.transferred m target now).loadMember who =
      if target.member = who then some (roleRow target .owner now)
      else if m.member = who then some (roleRow m .admin now) else g.loadMember who := by
  rw [transferred, loadMember_addNotice, loadMember_bumpRevision, loadMember_putMember,
    loadMember_putMember]
  rfl

theorem touch_transfer {target : MemberRow} (hm : g.loadMember m.member = some m)
    (ha : m.state = .active) (ho : m.role = .owner)
    (htar : g.loadMember target.member = some target) (ht : target.state = .active)
    {revision : ℕ} (who : Mailbox) :
    Touch dir (.request m.member gid (.transfer target.member revision)) g
      (g.transferred m target now) who := by
  have hr := loadMember_transfer g who m target now
  have hs : Succession g target.member (.request m.member gid (.transfer target.member revision)) :=
    .transfer (by rw [roleOf, hm, ← ho]; rfl)
  by_cases htwho : target.member = who
  · rw [if_pos htwho] at hr
    subst htwho
    exact .role htar (by rw [ht]; rfl) hr rfl (.admin hm ha (by simp [isAdmin, ho]) fun _ => ho)
      (fun _ => hs) fun _ => ⟨_, hs⟩
  · rw [if_neg htwho] at hr
    by_cases hmwho : m.member = who
    · rw [if_pos hmwho] at hr
      subst hmwho
      exact .role hm (by rw [ha]; rfl) hr rfl .own (fun h => by cases h) fun _ => ⟨_, hs⟩
    · exact touch_of_eq (hr.trans (if_neg hmwho))

theorem Effect.touch (h : Effect dir me now g request g') (hme : me ∈ dir.identities)
    (hn : ∀ who ∈ request.named, who ∈ dir.identities) (who : Mailbox) :
    Touch dir (.request me gid request) g g' who := by
  cases h with
  | quiet h => exact touch_of_eq h.loadMember
  | cursor hm =>
    refine .kept ?_
    rw [loadMember_putMember]
    split
    · rename_i heq
      rw [← heq, member_of_loadMember hm, hm]
      rfl
    · rfl
  | delete => exact touch_of_filter loadMember_deleteIn
  | invite hd => exact touch_of_invites (invites_inviteAll _ _ _ _ _) hd hn who
  | role hactor hact ht ho hrole hl hnew hmay =>
    exact touch_roleRow ht hl ho (grounds_of_mayChangeRole hactor hact hnew hmay) hrole who
  | withdraw hm hinv => exact touch_deleteMember hm hinv who
  | @withdrawBan _ _ target hmay hinv =>
    by_cases heq : target.member = who
    · subst heq
      refine .gone (.inl (isMember_of_invited hmay.found hinv)) ?_
      rw [loadMember_ban, if_pos rfl, loadMember_deleteMember, if_pos rfl]
      rfl
    · refine touch_of_eq ?_
      rw [loadMember_ban, if_neg heq, loadMember_deleteMember, if_neg (Ne.symm heq)]
  | remove hmay hl => exact touch_takeOut hmay.found hl rfl hmay.notOwner hmay.grounds who
  | @removeBan _ _ target hmay hl =>
    by_cases heq : target.member = who
    · subst heq
      have hrow : ((g.takeOut target .banned me now).ban target.member me ‹Option Bytes›
          now).loadMember target.member = some (bannedRow (outRow target .banned now) now) := by
        rw [loadMember_ban, if_pos rfl, loadMember_takeOut, if_pos rfl]
        rfl
      refine .out hmay.found hl hrow rfl ?_ hmay.grounds fun hc => absurd hc hmay.notOwner
      intro hc
      simp [bannedRow, outRow, hmay.notOwner] at hc
    · refine touch_of_eq ?_
      rw [loadMember_ban, if_neg heq, loadMember_takeOut, if_neg heq]
  | @banGone _ _ target hmay hl =>
    by_cases heq : target.member = who
    · subst heq
      have hrow : (g.ban target.member me ‹Option Bytes› now).loadMember target.member =
          some (bannedRow target now) := by
        rw [loadMember_ban, if_pos rfl, hmay.found]
        rfl
      exact .banned hmay.found hl hrow rfl hmay.notOwner
    · refine touch_of_eq ?_
      rw [loadMember_ban, if_neg heq]
  | unban => exact touch_unban who
  | accept hd hm hinv =>
    refine touch_startKeying hd (isMember_of_invited hm hinv) (.accept ?_) who rfl
    rw [stateOf, hm, ← hinv]
    rfl
  | join hd hout hb => exact touch_startKeying hd hout (.join hme hb) who rfl
  | leaveLast hm heq hl => exact touch_leaveLast hm hl (heq ▸ .own) who
  | leave hm heq ho hl => exact touch_takeOut hm hl rfl ho (heq ▸ .own) who
  | transfer hm hact ho ht htac =>
    obtain rfl := member_of_loadMember hm
    obtain rfl := member_of_loadMember ht
    exact touch_transfer hm hact ho ht htac who

theorem loadMember_of_heir (h : g.heir mailbox = some m) :
    g.loadMember m.member = some m ∧ m.member ≠ mailbox ∧ m.state = .active := by
  have hm := List.mem_of_mem_head? h
  rw [List.mem_insertionSort, List.mem_filter, decide_eq_true_eq] at hm
  exact ⟨lookup_eq_some.mpr ⟨hm.1, rfl⟩, hm.2⟩

theorem loadMember_handOver (g : Group) (who : Mailbox) (owner heir : MemberRow) (actor : Mailbox)
    (now : ℕ) :
    (g.handedOver owner heir actor now).loadMember who =
      if owner.member = who then some (outRow { owner with role := .member } .removed now)
      else if heir.member = who then
        some { heir with role := .owner, revision := heir.revision + 1 }
      else g.loadMember who := by
  rw [handedOver, loadMember_takeOut, handOver, loadMember_addNotice, loadMember_putMember,
    loadMember_putMember]
  by_cases ho : owner.member = who
  · rw [if_pos ho, if_pos ho]
  · rw [if_neg ho, if_neg ho, if_neg ho]

theorem touch_handOver {owner heir : MemberRow} (hm : g.loadMember owner.member = some owner)
    (hl : owner.state.isLive = true) (ho : owner.role = .owner)
    (hheir : g.heir owner.member = some heir) (who : Mailbox) :
    Touch dir (.offboard owner.member actor) g (g.handedOver owner heir actor now) who := by
  obtain ⟨hload, hne, ha⟩ := loadMember_of_heir hheir
  have hr : g.roleOf owner.member = some .owner := by
    rw [roleOf, hm, ← ho]
    rfl
  have hs : Succession g heir.member (.offboard owner.member actor) := .offboard hr
  have hrow := loadMember_handOver g who owner heir actor now
  by_cases howho : owner.member = who
  · rw [if_pos howho] at hrow
    subst howho
    refine .out hm hl hrow rfl ?_ (.offboard (.inl rfl)) fun _ => .inr ⟨_, hs⟩
    intro hc
    simp [outRow] at hc
  · rw [if_neg howho] at hrow
    by_cases hh : heir.member = who
    · rw [if_pos hh] at hrow
      subst hh
      exact .role hload (by rw [ha]; rfl) hrow rfl (.offboard (.inr hr)) (fun _ => hs)
        fun _ => ⟨_, hs⟩
    · exact touch_of_eq (hrow.trans (if_neg hh))

theorem Offboarded.touch (h : Offboarded mailbox actor now g g') (who : Mailbox) :
    Touch dir (.offboard mailbox actor) g g' who := by
  cases h with
  | same => exact touch_of_eq rfl
  | withdrawn hm hinv =>
    obtain rfl := member_of_loadMember hm
    exact touch_deleteMember hm hinv who
  | handedOver hm hl ho hh =>
    obtain rfl := member_of_loadMember hm
    exact touch_handOver hm hl ho hh who
  | ended => exact touch_of_filter loadMember_deleteIn
  | removed hm hl ho =>
    obtain rfl := member_of_loadMember hm
    exact touch_takeOut hm hl rfl ho (.offboard (.inl rfl)) who

theorem touch_autoJoinRoom {org : OrgId} (hf : address ∉ dir.identities) (who : Mailbox) :
    Touch dir (.onboard org address) g (g.autoJoinRoom org address now) who := by
  unfold autoJoinRoom
  split
  · rename_i hr
    split
    · exact touch_of_eq rfl
    rename_i hstate
    have ho : g.isMember address = false := by
      cases hm : g.loadMember address with
      | none => simp [isMember, hm]
      | some m =>
        rw [isMember_of_loadMember hm]
        simp only [stateOf, hm, Option.map_some, Option.some.injEq, not_or] at hstate
        cases hs : m.state <;> simp [hs] at hstate ⊢ <;> rfl
    exact touch_startKeying hr.2.2.1 ho (.onboard hf) who rfl
  · exact touch_of_eq rfl

theorem touch_applyCommit {claims : List KpClaim} {device : DeviceId}
    {req : CommitReq} (h : g.applyCommit crypto dir claims me device req now = .ok g')
    (who : Mailbox) : Touch dir (.commit me device gid req) g g' who := by
  obtain ⟨committed, mid, ha⟩ := applyCommit_eq_ok h
  rcases ha.member who with heq | ⟨m, hm, hk, hact⟩ | ⟨hp, hn, hs, hr⟩
  · exact touch_of_eq heq
  · exact .activated hm hk hact ha.activationState
  · have hk : g'.loadMember who = some (g.keyingRow who now) := by
      rw [hr, keyingRow, hn]
    exact .keying ha.notDeleted (by simp [isMember, hn]) hk (.opened hp (ha.committer hp) hs)

theorem deleted_of_purgeable {picked : List ℕ}
    (h : (g.expire now picked).purgeable now = true) : g.deletedAt.isSome = true := by
  rw [purgeable, deletedAt_of_aside (quiet_expire now picked g).aside] at h
  cases hat : g.deletedAt with
  | none => simp [hat] at h
  | some => rfl

theorem touch_clean {picked : List ℕ} {purged : Bool} (who : Mailbox) :
    Touch dir op g (g.clean now picked purged) who := by
  have he : (g.expire now picked).loadMember who = g.loadMember who :=
    (quiet_expire now picked g).loadMember
  unfold clean
  dsimp only
  cases purged with
  | false => exact touch_of_eq ((quiet_pruneHandshakes now _).loadMember.trans he)
  | true =>
    rw [if_pos rfl]
    by_cases hp : (g.expire now picked).purgeable now = true
    · refine .gone (.inr (deleted_of_purgeable hp)) ?_
      rw [purge, if_pos hp]
      rfl
    · refine touch_of_eq ?_
      rw [(quiet_pruneHandshakes now _).loadMember, purge, if_neg hp, he]

end Group

/-! ## New groups -/

namespace Group

variable {dir : Directory} {me who : Mailbox} {now : ℕ} {new : NewGroup}

def unshared (me : Mailbox) (new : NewGroup) (now : ℕ) : Group :=
  provisioned new.id new.orgId new.joinPolicy new.postPolicy new.visibility new.membersCanInvite
    new.membersCanChangeTimer new.autoJoin new.ephemeralSecs me now

theorem invites_created :
    Invites (new.invitees.filterMap Invitee.target) (unshared me new now)
      (created dir me new now) :=
  invites_inviteAll _ _ _ _ _

/-- The row of the mailbox that creates a group. -/
def ownerRow (me : Mailbox) (now : ℕ) : MemberRow :=
  { MemberRow.new me .owner .keying now with joinedAt := some now }

theorem loadMember_unshared : (unshared me new now).loadMember who =
    if me = who then some (ownerRow me now) else none :=
  lookup_put

theorem loadMember_created_self :
    (created dir me new now).loadMember me = some (ownerRow me now) := by
  have hme : (unshared me new now).loadMember me = some (ownerRow me now) :=
    loadMember_unshared.trans (if_pos rfl)
  rcases invites_created.member me with heq | ⟨-, -, ho, -⟩
  · exact heq.trans hme
  · rw [isMember_of_loadMember hme] at ho
    cases ho

/-- Everyone else holds an invitation. -/
theorem invited_of_created {m : MemberRow} (hne : who ≠ me)
    (hm : (created dir me new now).loadMember who = some m) :
    who ∈ new.invitees.filterMap Invitee.target ∧ m.state = .invited ∧ m.role ≠ .owner := by
  have hnone : (unshared me new now).loadMember who = none :=
    loadMember_unshared.trans (if_neg (Ne.symm hne))
  rcases invites_created.member who with heq | ⟨hn, -, -, m', hm', hs, hr⟩
  · cases (heq.trans hnone).symm.trans hm
  · cases hm'.symm.trans hm
    refine ⟨hn, hs, fun ho => ?_⟩
    have hc := hr ho
    rw [roleOf, hnone] at hc
    cases hc

end Group

theorem Postbox.GroupStep.touch {crypto : GroupCrypto} {p : Postbox} {now : ℕ} {op : Op}
    {g g' : Group} (h : GroupStep crypto p now op g g') (who : Mailbox) :
    Touch p.dir op g g' who := by
  cases h with
  | same | stream => exact touch_of_eq rfl
  | request hme hn h => exact (effect_perform h).touch hme hn who
  | commit h => exact touch_applyCommit h who
  | patchRoom h => exact touch_of_eq (quiet_patchRoom h).loadMember
  | deleteRoom => exact touch_of_filter loadMember_deleteIn
  | onboard hf => exact touch_autoJoinRoom hf who
  | offboard => exact (offboarded _ _ _ _).touch who
  | registerDevice => exact touch_of_eq (quiet_deviceAdded _ _ _).loadMember
  | revokeDevice => exact touch_of_eq (quiet_deviceRevoked _ _ _ _).loadMember
  | sweep => exact touch_clean who

end Pigeonpost.Groups
