import Pigeonpost.Library.Outcome
import Pigeonpost.Program.Disclosure.Approval

/-! # Approved requests -/

namespace Pigeonpost

open List hiding Vector

/-! ## Calls that draw salts -/

namespace Drawing

variable {α β : Type} {f : α → Drawing β}

theorem bind_eq_ok {x : Drawing α} {b : β} :
    (x >>= f) = some (.ok b) ↔ ∃ a, x = some (.ok a) ∧ f a = some (.ok b) := by
  constructor
  · intro h
    rcases x with _ | e | a
    · exact nomatch h
    · exact nomatch h
    · exact ⟨a, rfl, h⟩
  · rintro ⟨a, rfl, h⟩
    exact h

theorem guard_bind_eq_ok {c : Prop} [Decidable c] {e : ComplianceError} {k : Drawing β} {b : β} :
    (if c then (throw e : Drawing α) >>= f else k) = some (.ok b) ↔ ¬c ∧ k = some (.ok b) := by
  by_cases h : c
  · rw [if_pos h]
    exact ⟨fun ht => (nomatch ht), fun ha => absurd h ha.1⟩
  · rw [if_neg h]
    exact ⟨fun hk => ⟨h, hk⟩, fun ha => ha.2⟩

end Drawing

/-! ## Requests -/

section Requests

variable {prim : CryptoPrimitives} {request : DisclosureRequest}

/-- The key signed this request, while the request had not expired. -/
def DisclosureRequest.ApprovedBy (prim : CryptoPrimitives) (request : DisclosureRequest)
    (publicKey : Bytes32) : Prop :=
  ∃ approvedAtMs signature, request.createdAtMs ≤ approvedAtMs ∧
    approvedAtMs ≤ request.expiresAtMs ∧ prim.isWeak publicKey = false ∧
    prim.verifyStrict publicKey (request.approvalPreimage approvedAtMs) signature = true

/-- The identifier commits to what is requested. -/
def DisclosureRequest.Identified (prim : CryptoPrimitives) (request : DisclosureRequest) : Prop :=
  requestIdOf prim request.jurisdiction request.purpose request.keyIds request.createdAtMs
    request.expiresAtMs request.orderCommitment request.requesterCommitment
    request.selectorCommitment = .ok request.requestId

/-- Every recorded approver approved, and two of them are behind an authorization. -/
structure DisclosureRequest.Sound (prim : CryptoPrimitives) (request : DisclosureRequest) :
    Prop where
  identified : request.Identified prim
  approved : ∀ publicKey ∈ request.approverKeys, request.ApprovedBy prim publicKey
  distinct : request.approverKeys.Nodup
  count : request.approvers.length = request.approverKeys.length
  authorized : request.state = .authorized ∨ request.state = .consumed →
    request.approverKeys.length = 2

namespace DisclosureRequest

theorem Sound.of_state (h : request.Sound prim) {state : DisclosureState}
    (hs : state = .authorized ∨ state = .consumed → request.approverKeys.length = 2) :
    Sound prim { request with state } :=
  ⟨h.identified, h.approved, h.distinct, h.count, hs⟩

theorem Sound.expireIfNeeded (h : request.Sound prim) (nowMs : UInt64) :
    (request.expireIfNeeded nowMs).Sound prim := by
  unfold DisclosureRequest.expireIfNeeded
  split
  · exact h.of_state (by simp)
  · exact h

/-- A request whose time has come is neither pending nor authorized any more. -/
theorem le_expiresAtMs_of_state {nowMs : UInt64}
    (h : (request.expireIfNeeded nowMs).state = .pending ∨
      (request.expireIfNeeded nowMs).state = .authorized) :
    request.expireIfNeeded nowMs = request ∧ nowMs ≤ request.expiresAtMs := by
  unfold DisclosureRequest.expireIfNeeded at h ⊢
  split at h
  · simp at h
  rename_i hl
  rw [if_neg hl]
  refine ⟨rfl, UInt64.not_lt.mp fun hlt => hl ⟨hlt, h⟩⟩

theorem sound_new {jurisdiction : Jurisdiction} {purpose : CompliancePurpose}
    {keyIds : List ComplianceKeyId} {createdAtMs expiresAtMs : UInt64}
    {sensitive : SensitiveRequestMaterial} {orderDraws requesterDraws selectorDraws : List Bytes32}
    {openings : CommitmentOpenings}
    (h : new prim jurisdiction purpose keyIds createdAtMs expiresAtMs sensitive orderDraws
      requesterDraws selectorDraws = some (.ok (request, openings))) : request.Sound prim := by
  simp only [new, Drawing.guard_bind_eq_ok, Drawing.bind_eq_ok] at h
  obtain ⟨-, -, -, order, -, requester, -, selector, -, requestId, hid, h⟩ := h
  cases h
  exact ⟨Option.some.inj hid, by simp, nodup_nil, rfl, by simp⟩

section

variable (h : request.Sound prim)

include h

variable {publicKey : Bytes32}

theorem Sound.addApprover (hp : request.state = .pending) (ha : request.ApprovedBy prim publicKey)
    (hn : publicKey ∉ request.approverKeys) (commitment salt : Bytes32) :
    (request.addApprover publicKey commitment salt).Sound prim where
  identified := h.identified
  approved := forall_mem_append.mpr ⟨h.approved, forall_mem_singleton.mpr ha⟩
  distinct := by
    rw [DisclosureRequest.addApprover, nodup_append]
    refine ⟨h.distinct, nodup_singleton _, ?_⟩
    intro key hm other ho
    obtain rfl := mem_singleton.mp ho
    exact fun heq => hn (heq ▸ hm)
  count := by simp [DisclosureRequest.addApprover, h.count]
  authorized hs := by
    have hc := h.count
    by_cases ht : request.approvers.length + 1 = 2
    · simp only [DisclosureRequest.addApprover, length_append, length_singleton]
      omega
    · simp [DisclosureRequest.addApprover, ht, hp] at hs

theorem Sound.approve {approvedAtMs : UInt64} {signature : Vector UInt8 64} {draws : List Bytes32}
    {answer : Except ComplianceError Unit} {next : DisclosureRequest}
    (ha : request.approve prim publicKey approvedAtMs signature draws = some (answer, next)) :
    next.Sound prim := by
  have hl := h.expireIfNeeded approvedAtMs
  unfold DisclosureRequest.approve at ha
  dsimp only at ha
  -- every refusal leaves the request as the check of its expiry left it
  have hk : ∀ {e : ComplianceError}, some (Except.error e, request.expireIfNeeded approvedAtMs)
      = some (answer, next) → next.Sound prim := by
    intro e heq
    cases heq
    exact hl
  split at ha
  · exact hk ha
  rename_i ho
  split at ha
  · exact hk ha
  rename_i hkey
  split at ha
  · exact hk ha
  rename_i hv
  split at ha
  · exact hk ha
  rename_i hnew
  obtain ⟨salt, -, hn⟩ := Option.map_eq_some_iff.mp ha
  cases hn
  simp only [not_or, not_not, UInt64.not_lt, Bool.not_eq_true] at ho hkey hv
  obtain ⟨hs, he⟩ := le_expiresAtMs_of_state (.inl ho.1)
  have happ : (request.expireIfNeeded approvedAtMs).ApprovedBy prim publicKey :=
    ⟨approvedAtMs, signature, ho.2, hs.symm ▸ he, hkey.2, by simpa using hv⟩
  exact hl.addApprover ho.1 happ hnew _ _

theorem Sound.deny (atMs : UInt64) : (request.deny atMs).2.Sound prim := by
  unfold DisclosureRequest.deny
  dsimp only
  split
  · exact h.expireIfNeeded atMs
  · exact (h.expireIfNeeded atMs).of_state (by simp)

theorem Sound.ensureAuthorized (atMs : UInt64) : (request.ensureAuthorized atMs).2.Sound prim := by
  unfold DisclosureRequest.ensureAuthorized
  dsimp only
  split
  · exact h.expireIfNeeded atMs
  · exact h.expireIfNeeded atMs

end

theorem of_ensureAuthorized {atMs : UInt64} {checked : DisclosureRequest}
    (h : request.ensureAuthorized atMs = (.ok (), checked)) :
    checked = request ∧ request.state = .authorized ∧ atMs ≤ request.expiresAtMs := by
  unfold DisclosureRequest.ensureAuthorized at h
  dsimp only at h
  split at h
  · rename_i hs
    obtain ⟨hsame, he⟩ := le_expiresAtMs_of_state (.inr hs)
    rw [hsame] at h hs
    exact ⟨(Prod.mk.inj h).2.symm, hs, he⟩
  · exact nomatch (Prod.mk.inj h).1

theorem consume_eq {atMs : UInt64} (hs : request.state = .authorized)
    (he : atMs ≤ request.expiresAtMs) :
    request.consume atMs =
      (.ok ⟨request.requestId, request.jurisdiction, request.purpose, request.keyIds⟩,
        { request with state := .consumed }) := by
  have hsame : request.expireIfNeeded atMs = request :=
    if_neg fun hexp => UInt64.not_lt.mpr he hexp.1
  unfold consume
  rw [hsame]
  exact if_neg (not_not.mpr hs)

end DisclosureRequest

end Requests

end Pigeonpost
