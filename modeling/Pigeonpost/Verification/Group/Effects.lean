import Pigeonpost.Program.Group.Postbox

/-! # What a request does to its group

Every accepted request is taken apart once: the guards it passed and the rows it wrote. The
invariants are case analyses over these effects. -/

namespace Pigeonpost.Groups.Group

open KeyedTable

variable {crypto : GroupCrypto} {dir : Directory} {me who : Mailbox} {now : ℕ} {g g' : Group}

/-! ## Guards -/

theorem live_eq_ok {u : Unit} : g.live = .ok u ↔ g.deletedAt = none := by
  unfold live
  cases g.deletedAt <;> simp

theorem activeMember_eq_ok {m : MemberRow} :
    g.activeMember who = .ok m ↔ g.loadMember who = some m ∧ m.state = .active := by
  unfold activeMember
  cases hl : g.loadMember who with
  | none => simp
  | some row =>
    by_cases ha : row.state = .active
    · simp only [if_pos ha, Except.ok.injEq, Option.some.injEq]
      exact ⟨fun h => ⟨h, h ▸ ha⟩, fun h => h.1⟩
    · have hn : ¬(row = m ∧ m.state = .active) := fun h => ha (h.1 ▸ h.2)
      by_cases hk : row.state = .keying <;> simp [ha, hk, hn]

theorem member_of_loadMember {m : MemberRow} (h : g.loadMember who = some m) : m.member = who :=
  key_of_lookup h

/-! ## Lookups after a write -/

@[simp] theorem loadMember_putMember_self (row : MemberRow) :
    (g.putMember row).loadMember row.member = some row := lookup_put_self

theorem loadMember_putMember (row : MemberRow) :
    (g.putMember row).loadMember who = if row.member = who then some row else g.loadMember who :=
  lookup_put

variable (other : Mailbox) {newState : MemberState}

theorem loadMember_deleteMember :
    (g.deleteMember other).loadMember who = if who = other then none else g.loadMember who := by
  unfold deleteMember loadMember
  rw [lookup_delete]
  cases hl : g.members.lookup who with
  | none => simp
  | some m =>
    have hm : m.member = who := key_of_lookup hl
    by_cases h : who = other
    · simp [hm, h]
    · simp [hm, h]

@[simp] theorem loadMember_addNotice (kind : NoticeKind) (actor : Option Mailbox) :
    (g.addNotice kind actor now).loadMember who = g.loadMember who := rfl

@[simp] theorem loadMember_closeInterval :
    (g.closeInterval other).loadMember who = g.loadMember who := rfl

@[simp] theorem loadMember_bumpRevision : g.bumpRevision.loadMember who = g.loadMember who := rfl

def outRow (target : MemberRow) (newState : MemberState) (now : ℕ) : MemberRow :=
  { target with
    state := newState
    revision := target.revision + 1
    updatedAt := now
    role := if target.role = .owner then .owner else .member }

theorem loadMember_takeOut (target : MemberRow) (newState : MemberState) (actor : Mailbox) :
    (g.takeOut target newState actor now).loadMember who =
      if target.member = who then some (outRow target newState now) else g.loadMember who := by
  unfold takeOut
  rw [loadMember_addNotice]
  split
  · rw [loadMember_closeInterval]
    exact loadMember_putMember (outRow target newState now)
  · exact loadMember_putMember (outRow target newState now)

def keyingRow (g : Group) (who : Mailbox) (now : ℕ) : MemberRow :=
  match g.loadMember who with
  | some m =>
    { m with
      state := .keying
      role := if m.role = .owner then .owner else .member
      revision := m.revision + 1
      updatedAt := now
      filtered := false }
  | none => MemberRow.new who .member .keying now

theorem member_keyingRow : (g.keyingRow who now).member = who := by
  unfold keyingRow
  cases hl : g.loadMember who with
  | none => rfl
  | some =>
    have hm := member_of_loadMember hl
    exact hm

@[simp] theorem state_keyingRow : (g.keyingRow who now).state = .keying := by
  unfold keyingRow
  cases g.loadMember who <;> rfl

theorem startKeying_eq : g.startKeying who now = g.putMember (g.keyingRow who now) := by
  unfold startKeying keyingRow
  cases g.loadMember who <;> rfl

theorem loadMember_startKeying : (g.startKeying who now).loadMember other =
      if who = other then some (g.keyingRow who now) else g.loadMember other := by
  rw [startKeying_eq, loadMember_putMember, member_keyingRow]

/-- The row a ban leaves. -/
def bannedRow (m : MemberRow) (now : ℕ) : MemberRow :=
  { m with state := .banned, revision := m.revision + 1, updatedAt := now }

@[simp] theorem member_bannedRow (m : MemberRow) (now : ℕ) :
    (bannedRow m now).member = m.member := rfl

theorem ban_eq (address me : Mailbox) (reason : Option Bytes) (now : ℕ) (g : Group) :
    g.ban address me reason now = { g with
      bans := g.bans.put ⟨address, me, reason, now⟩
      members := (g.ban address me reason now).members } := by
  unfold ban
  dsimp only
  split <;> rfl

theorem loadMember_ban (address me : Mailbox) (reason : Option Bytes) (now : ℕ) (g : Group) :
    (g.ban address me reason now).loadMember who =
      if address = who then (g.loadMember who).map (bannedRow · now) else g.loadMember who := by
  unfold ban
  dsimp only
  cases hl : loadMember { g with bans := g.bans.put ⟨address, me, reason, now⟩ } address with
  | none =>
    have hl : g.loadMember address = none := hl
    by_cases heq : address = who
    · rw [if_pos heq, ← heq, hl]
      exact hl
    · rw [if_neg heq]
      rfl
  | some m =>
    have hl : g.loadMember address = some m := hl
    have hm := member_of_loadMember hl
    refine (loadMember_putMember (bannedRow m now)).trans ?_
    rw [member_bannedRow]
    by_cases heq : address = who
    · rw [if_pos heq, if_pos (hm.trans heq), ← heq, hl]
      rfl
    · rw [if_neg heq, if_neg (hm ▸ heq)]
      rfl

theorem loadMember_deleteIn : (g.deleteIn now).loadMember who =
      (g.loadMember who).filter fun m => !decide (m.state = .invited) := by
  unfold deleteIn loadMember
  rw [lookup_delete]

/-! ## Requests that leave the membership alone -/

/-- What stands beside the members. -/
def aside (g : Group) := (g.id, g.activationState, g.deletedAt, g.orgId, g.bans)

/-- The membership stays as it is. -/
def Quiet (g g' : Group) : Prop := (g'.aside, g'.members) = (g.aside, g.members)

theorem Quiet.refl (g : Group) : Quiet g g := rfl

theorem Quiet.trans {g₁ g₂ g₃ : Group} (h : Quiet g₁ g₂) (h' : Quiet g₂ g₃) : Quiet g₁ g₃ :=
  Eq.trans h' h

theorem Quiet.aside (h : Quiet g g') : g'.aside = g.aside := congrArg (·.1) h

theorem Quiet.members (h : Quiet g g') : g'.members = g.members := congrArg (·.2) h

theorem Quiet.loadMember (h : Quiet g g') : g'.loadMember who = g.loadMember who := by
  unfold Group.loadMember
  rw [h.members]

section

variable (h : g'.aside = g.aside)

include h

theorem activationState_of_aside : g'.activationState = g.activationState := congrArg (·.2.1) h

theorem deletedAt_of_aside : g'.deletedAt = g.deletedAt := congrArg (·.2.2.1) h

theorem orgId_of_aside : g'.orgId = g.orgId := congrArg (·.2.2.2.1) h

theorem bans_of_aside : g'.bans = g.bans := congrArg (·.2.2.2.2) h

end

theorem aside_startKeying : (g.startKeying who now).aside = g.aside := by
  rw [startKeying_eq]
  rfl

theorem aside_takeOut {m : MemberRow} {actor : Mailbox} :
    (g.takeOut m newState actor now).aside = g.aside := by
  unfold takeOut
  dsimp only
  split <;> rfl

theorem quiet_addNotice (kind : NoticeKind) (actor : Option Mailbox) (now : ℕ) (g : Group) :
    Quiet g (g.addNotice kind actor now) := rfl

theorem quiet_patch {c : SettingsChange} (h : g.patch me c now = .ok g') : Quiet g g' := by
  simp only [patch, ok_iff] at h
  obtain ⟨-, -, -, m, -, -, -, h⟩ := h
  split at h
  · cases h
    exact Quiet.refl g
  · cases h
    have hs : Quiet g (g.setColumns c).bumpRevision := rfl
    refine hs.trans ?_
    split <;> split
    · exact (quiet_addNotice _ _ _ _).trans (quiet_addNotice _ _ _ _)
    · exact quiet_addNotice _ _ _ _
    · exact quiet_addNotice _ _ _ _
    · exact Quiet.refl _

theorem quiet_link {enabled : Bool} {hash : Bytes} (h : g.link me enabled hash now = .ok g') :
    Quiet g g' := by
  simp only [link, ok_iff] at h
  obtain ⟨-, -, m, -, -, -, -, rfl⟩ := h
  rfl

variable {device : DeviceId} {req : PostReq}

theorem quiet_storeMessage (h : g.storeMessage crypto me device req now = .ok g') : Quiet g g' := by
  simp only [storeMessage, ok_iff] at h
  obtain ⟨-, -, -, -, rfl⟩ := h
  rfl

theorem quiet_post {quota : ℕ} (h : g.post crypto dir me device req quota now = .ok g') :
    Quiet g g' := by
  simp only [post, ok_iff] at h
  obtain ⟨-, -, m, -, -, -, -, -, h⟩ := h
  split at h
  · simp only [ok_iff] at h
    exact h.2 ▸ Quiet.refl g
  · simp only [ok_iff] at h
    obtain ⟨-, -, -, -, -, -, -, -, -, -, -, h⟩ := h
    exact quiet_storeMessage h

theorem quiet_attach {att sha256 : Bytes} {bytes quota : ℕ}
    (h : g.attach me att sha256 bytes quota now = .ok g') : Quiet g g' := by
  simp only [attach, ok_iff] at h
  obtain ⟨-, -, -, -, -, attachments, -, rfl⟩ := h
  rfl

theorem quiet_deleteMessage {seq : ℕ} {shas : List Bytes}
    (h : g.deleteMessage me seq now = .ok (g', shas)) : Quiet g g' := by
  simp only [deleteMessage, ok_iff] at h
  obtain ⟨-, -, m, -, root, -, h⟩ := h
  split at h
  · cases h
    exact Quiet.refl g
  · simp only [ok_iff, Prod.mk.injEq] at h
    obtain ⟨-, rfl, -⟩ := h
    rfl

theorem quiet_epochAck {epoch : ℕ} (h : g.epochAck me device epoch now = .ok g') : Quiet g g' := by
  simp only [epochAck, ok_iff] at h
  obtain ⟨-, -, rfl⟩ := h
  rfl

theorem quiet_welcomeAck {wid : ℕ} {joined : Bool}
    (h : g.welcomeAck me device wid joined now = .ok g') : Quiet g g' := by
  simp only [welcomeAck, ok_iff] at h
  obtain ⟨w, -, rfl⟩ := h
  cases joined <;> rfl

theorem quiet_resync (h : g.resync me device = .ok g') : Quiet g g' := by
  simp only [resync, ok_iff] at h
  obtain ⟨-, -, -, -, rfl⟩ := h
  rfl

theorem quiet_patchRoom {autoJoin listed : Option Bool}
    (h : g.patchRoom autoJoin listed = .ok g') : Quiet g g' := by
  simp only [patchRoom, ok_iff] at h
  obtain ⟨-, -, -, rfl⟩ := h
  rfl

variable (mailbox : Mailbox)

theorem quiet_deviceAdded (now : ℕ) (g : Group) : Quiet g (g.deviceAdded mailbox now) := by
  unfold deviceAdded
  split
  · exact quiet_addNotice _ _ _ _
  · exact Quiet.refl g

theorem quiet_deviceRevoked (device : DeviceId) (now : ℕ) (g : Group) :
    Quiet g (g.deviceRevoked mailbox device now) := by
  unfold deviceRevoked
  split
  · exact quiet_addNotice _ _ _ _
  · exact Quiet.refl g

theorem quiet_expireMessage (now seq : ℕ) (g : Group) : Quiet g (g.expireMessage now seq) := by
  unfold expireMessage
  split
  · rfl
  · exact Quiet.refl g

theorem quiet_pruneHandshakes (now : ℕ) (g : Group) : Quiet g (g.pruneHandshakes now) := by
  unfold pruneHandshakes
  split
  · exact Quiet.refl g
  · rfl

theorem quiet_expire (now : ℕ) (picked : List ℕ) (g : Group) : Quiet g (g.expire now picked) := by
  have hf : Quiet g (picked.foldl (fun g seq => g.expireMessage now seq) g) := by
    induction picked generalizing g with
    | nil => exact Quiet.refl g
    | cons seq _ ih => exact (quiet_expireMessage now seq g).trans (ih _)
  exact hf

/-! ## Effects -/

def roleRow (target : MemberRow) (role : Role) (now : ℕ) : MemberRow :=
  { target with role, revision := target.revision + 1, updatedAt := now }

/-- The group after its owner passed the ownership on. -/
def transferred (m target : MemberRow) (now : ℕ) (g : Group) : Group :=
  ((g.putMember (roleRow m .admin now)).putMember
    (roleRow target .owner now)).bumpRevision.addNotice
    .ownershipTransferred (some m.member) now

/-- Who may remove, ban or withdraw. -/
structure MayRemove (g : Group) (me : Mailbox) (target : MemberRow) : Prop where
  found : g.loadMember target.member = some target
  notOwner : target.role ≠ .owner
  actor : ∃ actor, g.loadMember me = some actor ∧ actor.state = .active ∧ isAdmin actor = true ∧
    (target.role ≠ .admin ∨ actor.role = .owner)

/-- Every accepted request on a group. -/
inductive Effect (dir : Directory) (me : Mailbox) (now : ℕ) (g : Group) : Request → Group → Prop
  | quiet {request g'} (h : Quiet g g') : Effect dir me now g request g'
  | cursor {seq m} (hm : g.loadMember me = some m) :
    Effect dir me now g (.readCursor seq) (g.putMember { m with readCursor := min seq g.lastSeq })
  | delete : Effect dir me now g .delete (g.deleteIn now)
  | invite {invitees} (hdeleted : g.deletedAt = none) :
    Effect dir me now g (.invite invitees) (g.inviteAll (g.maxMembers dir) me now invitees).1
  | role {request role actor target} (hactor : g.loadMember me = some actor)
    (hactive : actor.state = .active) (htarget : g.loadMember target.member = some target)
    (howner : target.role ≠ .owner) (hrole : role ≠ .owner) (hlive : target.state.isLive = true)
    (hnew : target.role ≠ role) (hmay : mayChangeRole actor target role = true) :
    Effect dir me now g request
      ((g.putMember (roleRow target role now)).addNotice .roleChanged (some me) now)
  | withdraw {request m} (hm : g.loadMember m.member = some m) (hinvited : m.state = .invited) :
    Effect dir me now g request (g.deleteMember m.member)
  | withdrawBan {request reason target} (hmay : MayRemove g me target)
    (hinvited : target.state = .invited) :
    Effect dir me now g request ((g.deleteMember target.member).ban target.member me reason now)
  | remove {request target} (hmay : MayRemove g me target) (hlive : target.state.isLive = true) :
    Effect dir me now g request (g.takeOut target .removed me now)
  | removeBan {request reason target} (hmay : MayRemove g me target)
    (hlive : target.state.isLive = true) :
    Effect dir me now g request
      ((g.takeOut target .banned me now).ban target.member me reason now)
  | banGone {request reason target} (hmay : MayRemove g me target)
    (hlive : target.state.isLive = false) :
    Effect dir me now g request (g.ban target.member me reason now)
  | unban {address} :
    Effect dir me now g (.unban address)
      { g with
        bans := g.bans.delete fun row => row.member = address
        members := g.members.delete fun row => row.member = address ∧ row.state = .banned }
  | accept {m} (hdeleted : g.deletedAt = none) (hm : g.loadMember me = some m)
    (hinvited : m.state = .invited) : Effect dir me now g (.respond true) (g.startKeying me now)
  | join {link} (hdeleted : g.deletedAt = none) (hout : g.isMember me = false)
    (hbanned : g.isBanned me = false) : Effect dir me now g (.join link) (g.startKeying me now)
  | leaveLast {m} (hm : g.loadMember m.member = some m) (hme : m.member = me)
    (hlive : m.state.isLive = true) :
    Effect dir me now g .leave
      ((g.deleteIn now).putMember { m with state := .left, updatedAt := now })
  | leave {m} (hm : g.loadMember m.member = some m) (hme : m.member = me)
    (howner : m.role ≠ .owner) (hlive : m.state.isLive = true) :
    Effect dir me now g .leave (g.takeOut m .left me now)
  | transfer {next revision m target} (hm : g.loadMember me = some m) (hactive : m.state = .active)
    (howner : m.role = .owner) (htarget : g.loadMember next = some target)
    (htactive : target.state = .active) :
    Effect dir me now g (.transfer next revision) (g.transferred m target now)

theorem effect_readCursor {seq : ℕ} (h : g.readCursor me seq = .ok g') :
    Effect dir me now g (.readCursor seq) g' := by
  simp only [readCursor, ok_iff, activeMember_eq_ok] at h
  obtain ⟨-, -, m, ⟨hm, -⟩, rfl⟩ := h
  split
  · exact .cursor hm
  · exact .quiet (Quiet.refl g)

theorem effect_delete (h : g.delete me now = .ok g') : Effect dir me now g .delete g' := by
  simp only [delete, ok_iff] at h
  obtain ⟨-, -, -, -, -, rfl⟩ := h
  exact .delete

variable {invitees : List Invitee}

theorem inviteIn_eq_ok {result : Group × List String}
    (h : g.inviteIn dir me invitees now = .ok result) :
    g.inviteAll (g.maxMembers dir) me now invitees = result := by
  simp only [inviteIn] at h
  split at h
  · cases h
  · exact Except.ok.inj h

theorem effect_invite (h : g.invite dir me invitees now = .ok g') :
    Effect dir me now g (.invite invitees) g' := by
  simp only [invite, ok_iff, live_eq_ok] at h
  obtain ⟨-, hd, -, -, -, result, hinv, rfl⟩ := h
  rw [← inviteIn_eq_ok hinv]
  exact .invite hd

variable {request : Request} {revision : ℕ} {address : Mailbox} {reason : Option Bytes}

section Members

variable {actor target : MemberRow} (hactor : g.loadMember me = some actor)
  (ha : actor.state = .active) (ht : g.loadMember target.member = some target)
  (ho : target.role ≠ .owner)

include hactor ha ht ho

theorem effect_patchRole {role : Role} (hr : role ≠ .owner)
    (h : g.patchRole actor target role now = .ok g') : Effect dir me now g request g' := by
  simp only [patchRole, ok_iff, not_not] at h
  obtain ⟨hl, hm, h⟩ := h
  split at h
  · cases h
    exact .quiet (Quiet.refl g)
  · rename_i hn
    cases h
    rw [member_of_loadMember hactor]
    exact .role hactor ha ht ho hr hl hn hm

theorem effect_patchState (hn : newState = .removed ∨ newState = .banned)
    (h : g.patchState actor target newState reason now = .ok g') :
    Effect dir me now g request g' := by
  simp only [patchState, ok_iff, not_not] at h
  obtain ⟨⟨hadmin, hr, -⟩, h⟩ := h
  rw [member_of_loadMember hactor] at h
  have hm : MayRemove g me target := ⟨ht, ho, actor, hactor, ha, hadmin, hr⟩
  by_cases hinv : target.state = .invited
  · rw [if_pos hinv, pure_bind, pure_eq_ok] at h
    rcases hn with rfl | rfl
    · exact h ▸ .withdraw ht hinv
    · exact h ▸ .withdrawBan hm hinv
  · rw [if_neg hinv] at h
    by_cases hl : target.state.isLive = true
    · rw [if_pos hl, pure_bind, pure_eq_ok] at h
      rcases hn with rfl | rfl
      · exact h ▸ .remove hm hl
      · exact h ▸ .removeBan hm hl
    · rw [if_neg hl] at h
      rcases hn with rfl | rfl
      · cases h
      · rw [if_pos rfl, pure_bind, pure_eq_ok] at h
        exact h ▸ .banGone hm (by simpa using hl)

end Members

theorem effect_patchMember {change : MemberChange}
    (h : g.patchMember me address revision change reason now = .ok g') :
    Effect dir me now g (.patchMember address revision change reason) g' := by
  simp only [patchMember, ok_iff, activeMember_eq_ok] at h
  obtain ⟨u, hc, -, -, actor, ⟨hactor, ha⟩, target, ht, ho, -, h⟩ := h
  obtain rfl := member_of_loadMember ht
  cases change with
  | role role =>
    have hr : role ≠ .owner := by
      intro hcon
      rw [checkChange, if_pos hcon] at hc
      cases hc
    exact effect_patchRole hactor ha ht ho hr h
  | state newState =>
    have hn : newState = .removed ∨ newState = .banned := by
      by_contra hcon
      rw [checkChange, if_pos (not_or.mp hcon)] at hc
      cases hc
    exact effect_patchState hactor ha ht ho hn h

theorem effect_unban (h : g.unban me address = .ok g') :
    Effect dir me now g (.unban address) g' := by
  simp only [unban, ok_iff] at h
  obtain ⟨-, -, -, -, -, -, rfl⟩ := h
  exact .unban

theorem effect_respond {accept : Bool} (h : g.respond dir me accept now = .ok g') :
    Effect dir me now g (.respond accept) g' := by
  simp only [respond, ok_iff, live_eq_ok, Option.filter_eq_some_iff, decide_eq_true_eq] at h
  obtain ⟨-, hd, m, ⟨hm, hinv⟩, -, h⟩ := h
  cases accept with
  | false =>
    cases h
    obtain rfl := member_of_loadMember hm
    exact .withdraw hm hinv
  | true =>
    simp only [Bool.not_true, Bool.false_eq_true, if_false, ok_iff] at h
    obtain ⟨-, -, rfl⟩ := h
    exact .accept hd hm hinv

theorem effect_join {link : Option (Option Bytes)} (h : g.join dir me link now = .ok g') :
    Effect dir me now g (.join link) g' := by
  simp only [join, ok_iff, live_eq_ok] at h
  obtain ⟨-, hd, ho, -, -, -, -, hb, -, rfl⟩ := h
  exact .join hd (by simpa [isMember] using ho) (by simpa using hb)

theorem effect_leave (h : g.leave me now = .ok g') : Effect dir me now g .leave g' := by
  simp only [leave, ok_iff, Option.filter_eq_some_iff] at h
  obtain ⟨-, -, m, ⟨hm, hs⟩, h⟩ := h
  obtain rfl := member_of_loadMember hm
  by_cases hinv : m.state = .invited
  · rw [if_pos hinv, pure_eq_ok] at h
    exact h ▸ .withdraw hm hinv
  · rw [if_neg hinv] at h
    have hl : m.state.isLive = true := by simpa [hinv] using hs
    by_cases ho : m.role = .owner
    · rw [if_pos ho, guard_bind_eq_ok, pure_eq_ok] at h
      obtain ⟨-, rfl⟩ := h
      exact .leaveLast hm rfl hl
    · rw [if_neg ho, pure_eq_ok] at h
      exact h ▸ .leave hm rfl ho hl

theorem transfer_eq_ok {next : Mailbox} (h : g.transfer me next revision now = .ok g') :
    ∃ m target, g.loadMember me = some m ∧ m.state = .active ∧
      m.role = .owner ∧ g.loadMember next = some target ∧ target.state = .active ∧
      target.role = .admin ∧ g.transferred m target now = g' := by
  simp only [transfer, ok_iff, activeMember_eq_ok, Option.filter_eq_some_iff, decide_eq_true_eq,
    not_not] at h
  obtain ⟨-, -, m, ⟨hm, ha⟩, ho, -, target, ⟨htar, ht, hadmin⟩, rfl⟩ := h
  obtain rfl := member_of_loadMember hm
  exact ⟨m, target, hm, ha, ho, htar, ht, hadmin, rfl⟩

theorem effect_perform (h : g.perform crypto dir me now request = .ok g') :
    Effect dir me now g request g' := by
  cases request with
  | patch => exact .quiet (quiet_patch h)
  | link => exact .quiet (quiet_link h)
  | delete => exact effect_delete h
  | invite => exact effect_invite h
  | patchMember => exact effect_patchMember h
  | unban => exact effect_unban h
  | respond => exact effect_respond h
  | join => exact effect_join h
  | leave => exact effect_leave h
  | transfer =>
    obtain ⟨m, target, hm, ha, ho, htar, ht, -, rfl⟩ := transfer_eq_ok h
    exact .transfer hm ha ho htar ht
  | readCursor => exact effect_readCursor h
  | post => exact .quiet (quiet_post h)
  | attach => exact .quiet (quiet_attach h)
  | deleteMessage =>
    obtain ⟨⟨deleted, shas⟩, hd, rfl⟩ := map_eq_ok.mp h
    exact .quiet (quiet_deleteMessage hd)
  | epochAck => exact .quiet (quiet_epochAck h)
  | welcomeAck => exact .quiet (quiet_welcomeAck h)
  | resync => exact .quiet (quiet_resync h)

/-! ## Offboarding -/

/-- The group after its owner was offboarded and the heir took over. -/
def handedOver (owner heir : MemberRow) (actor : Mailbox) (now : ℕ) (g : Group) : Group :=
  (g.handOver owner heir now).takeOut { owner with role := .member } .removed actor now

/-- What offboarding a mailbox makes of a group. -/
inductive Offboarded (mailbox actor : Mailbox) (now : ℕ) (g : Group) : Group → Prop
  | same : Offboarded mailbox actor now g g
  | withdrawn {m} (hm : g.loadMember mailbox = some m) (hinvited : m.state = .invited) :
    Offboarded mailbox actor now g (g.deleteMember mailbox)
  | handedOver {m heir} (hm : g.loadMember mailbox = some m) (hlive : m.state.isLive = true)
    (howner : m.role = .owner) (hheir : g.heir mailbox = some heir) :
    Offboarded mailbox actor now g (g.handedOver m heir actor now)
  | ended : Offboarded mailbox actor now g (g.deleteIn now)
  | removed {m} (hm : g.loadMember mailbox = some m) (hlive : m.state.isLive = true)
    (howner : m.role ≠ .owner) :
    Offboarded mailbox actor now g (g.takeOut m .removed actor now)

theorem offboarded (actor : Mailbox) (now : ℕ) (g : Group) :
    Offboarded mailbox actor now g (g.offboard mailbox actor now) := by
  unfold offboard
  split
  · exact .same
  · cases hm : g.loadMember mailbox with
    | none => exact .same
    | some m =>
      dsimp only
      by_cases hinv : m.state = .invited
      · rw [if_pos hinv]
        exact .withdrawn hm hinv
      · rw [if_neg hinv]
        cases hl : m.state.isLive with
        | false => exact .same
        | true =>
          rw [if_neg (by simp)]
          by_cases ho : m.role = .owner
          · rw [if_pos ho]
            cases hh : g.heir mailbox with
            | some => exact .handedOver hm hl ho hh
            | none => exact .ended
          · rw [if_neg ho]
            exact .removed hm hl ho

end Pigeonpost.Groups.Group
