import Pigeonpost.Verification.Storage.Runs

/-! # Ownership of handles

A handle belongs to the subject of its first claim, over every run of the store. -/

namespace Pigeonpost

open Store Table List

variable {H : Type}
  {entry : LogEntry} {old : HandleHistoryRow} {claim : HandleClaim} {request : HandleAppendRequest}

/-! ## What the admission checks guarantee -/

section Admission

variable {s : Store H} {request : HandleAppendRequest}

/-- A new leaf is admitted for an unclaimed handle within the quota, or for the
owner's new key. -/
theorem admitHandle_eq_none (h : s.admitHandle request = .ok none) :
    request.mode = .register ∧ s.currentBinding request.handle = none ∧
      s.heldBySubject request.subject request.handle < maxHandlesPerSubject ∨
    request.mode = .rotate ∧ ∃ row, s.currentBinding request.handle = some row ∧
      row.subject = request.subject ∧ row.pubkey ≠ request.pubkey := by
  unfold admitHandle at h
  dsimp only at h
  split at h
  · cases h
  rename_i hq
  split at h
  · cases h
  · next hc hm => exact .inl ⟨hm, hc, by simpa [hc, hm] using hq⟩
  · split at h <;> cases h
  · rename_i row hc hm
    split at h
    · cases h
    rename_i hs
    split at h
    · cases h
    · next hp => exact .inr ⟨hm, row, hc, not_not.mp hs, hp⟩

theorem admitHandle_eq_some {seq : ℕ} (h : s.admitHandle request = .ok (some seq)) :
    s.currentBinding request.handle =
      some ⟨request.handle, request.pubkey, request.subject, seq⟩ := by
  have hh : ∀ row, s.currentBinding request.handle = some row → row.handle = request.handle :=
    fun row hc => by simpa using find?_some hc
  unfold admitHandle at h
  dsimp only at h
  split at h
  · cases h
  split at h
  · cases h
  · cases h
  · rename_i row hc _
    split at h
    · rename_i hsame
      cases h
      rw [hc, ← hsame.1, ← hsame.2, ← hh row hc]
    · cases h
  · rename_i row hc _
    split at h
    · cases h
    rename_i hs
    split at h
    · rename_i hp
      cases h
      rw [hc, ← hp, ← not_not.mp hs, ← hh row hc]
    · cases h

theorem handleBinding_handleEntry (s : Store H) (request : HandleAppendRequest) :
    (s.handleEntry request).handleBinding =
      some ⟨request.handle, request.pubkey, request.subject⟩ := by
  unfold handleEntry
  cases request.mode <;> rfl

theorem expectedKind_handleEntry (s : Store H) (request : HandleAppendRequest) :
    expectedKind (s.handleEntry request) request.mode = true := by
  unfold handleEntry
  cases request.mode <;> rfl

end Admission

/-! ## Current bindings are the newest history rows -/

def CurrentBindingRow.toHistory (row : CurrentBindingRow) : HandleHistoryRow :=
  ⟨row.seq, row.handle, row.pubkey, row.subject⟩

/-- History follows the entries, and each handle with a history has one current
row, which no older row of the handle outdates. -/
structure BindingInvariant (s : Store H) : Prop where
  history : s.handleHistory = s.entries.flatMap fun row => historyRows row.entry
  nodup : (s.currentBindings.map (·.handle)).Nodup
  sound : ∀ row ∈ s.currentBindings, row.toHistory ∈ s.handleHistory
  current : ∀ old ∈ s.handleHistory, ∃ row ∈ s.currentBindings,
    row.handle = old.handle ∧ old.seq ≤ row.seq

theorem bindingInvariant_fresh [Sha256 H] [HashBytes H] (ctx : RegistryContext) :
    BindingInvariant (fresh ctx : Store H) :=
  ⟨rfl, .nil, by simp [fresh], by simp [fresh]⟩

theorem bindingsAfter_of_none (h : entry.handleBinding = none)
    (rows : List CurrentBindingRow) : bindingsAfter entry rows = rows := by
  rw [bindingsAfter, h]

variable {binding : HandlePayload}

theorem historyRows_of_some (h : entry.handleBinding = some binding) :
    historyRows entry = [⟨entry.seq.toNat, binding.handle, binding.pubkey, binding.subject⟩] := by
  rw [historyRows, h]
  rfl

theorem bindingsAfter_of_some (h : entry.handleBinding = some binding)
    (rows : List CurrentBindingRow) :
    bindingsAfter entry rows = upsert (·.handle)
      ⟨binding.handle, binding.pubkey, binding.subject, entry.seq.toNat⟩ rows := by
  rw [bindingsAfter, h]

section Bindings

variable [Sha256 H] {ctx : RegistryContext} {s s' : Store H} {entry : LogEntry}

section

variable (hin : LogInvariant ctx s)

include hin

theorem Store.Appended.bindingInvariant (ha : Appended ctx entry s s')
    (h : BindingInvariant s) : BindingInvariant s' := by
  obtain ⟨bytes, -, he⟩ := ha.entries
  have hh : s'.handleHistory = s'.entries.flatMap fun row => historyRows row.entry := by
    rw [ha.history, he, h.history]
    simp [entryRow]
  cases hb : entry.handleBinding with
  | none =>
    have hr := ha.history
    have hc := ha.bindings
    rw [historyRows, hb, Option.toList_none, map_nil, append_nil] at hr
    rw [bindingsAfter_of_none hb] at hc
    refine ⟨hh, ?_, ?_, ?_⟩
    · rw [hc]
      exact h.nodup
    · rw [hc, hr]
      exact h.sound
    · rw [hc, hr]
      exact h.current
  | some binding =>
    have hr := ha.history
    have hc := ha.bindings
    rw [historyRows_of_some hb] at hr
    rw [bindingsAfter_of_some hb] at hc
    refine ⟨hh, ?_, ?_, ?_⟩
    · rw [hc]
      exact nodup_keys_upsert h.nodup
    · intro row hrow
      rw [hc, mem_upsert] at hrow
      rw [hr, mem_append]
      rcases hrow with rfl | ⟨hold, -⟩
      · exact .inr (mem_singleton.mpr rfl)
      · exact .inl (h.sound row hold)
    · intro old hold
      rw [hr, mem_append, mem_singleton] at hold
      simp only [hc, mem_upsert]
      rcases hold with hold | rfl
      · have hlt := hin.history old hold
        by_cases hs : old.handle = binding.handle
        · refine ⟨_, .inl rfl, hs.symm, ?_⟩
          rw [ha.seq]
          exact hlt.le
        · obtain ⟨row, hrow, hhan, hle⟩ := h.current old hold
          exact ⟨row, .inr ⟨hrow, hhan ▸ hs⟩, hhan, hle⟩
      · exact ⟨_, .inl rfl, rfl, le_rfl⟩

section

variable (h : BindingInvariant s)

include h

theorem BindingInvariant.exists_entry (hold : old ∈ s.handleHistory) :
    ∃ row, s.entries[old.seq]? = some row ∧
      row.entry.handleBinding = some ⟨old.handle, old.pubkey, old.subject⟩ := by
  rw [h.history, mem_flatMap] at hold
  obtain ⟨row, hr, hold⟩ := hold
  obtain ⟨i, hi⟩ := mem_iff_getElem?.mp hr
  obtain ⟨entry, bytes, rfl, rfl, -⟩ := hin.rows i row hi
  obtain ⟨binding, hb, rfl⟩ := mem_map.mp hold
  exact ⟨_, hi, Option.mem_toList.mp hb⟩

theorem BindingInvariant.mem_history {i : ℕ} {row : EntryRow H}
    (hr : s.entries[i]? = some row) (hb : row.entry.handleBinding = some binding) :
    (⟨i, binding.handle, binding.pubkey, binding.subject⟩ : HandleHistoryRow) ∈
      s.handleHistory := by
  obtain ⟨entry, bytes, rfl, rfl, -⟩ := hin.rows i row hr
  rw [h.history, mem_flatMap]
  refine ⟨_, mem_of_getElem? hr, ?_⟩
  rw [historyRows_of_some hb]
  exact mem_singleton.mpr rfl

theorem BindingInvariant.eq_of_seq {old' : HandleHistoryRow} (hold : old ∈ s.handleHistory)
    (ho' : old' ∈ s.handleHistory) (hseq : old.seq = old'.seq) : old = old' := by
  obtain ⟨entry, he, hb⟩ := h.exists_entry hin hold
  obtain ⟨entry', he', hb'⟩ := h.exists_entry hin ho'
  rw [← hseq, he] at he'
  cases he'
  rw [hb] at hb'
  obtain ⟨hh, hp, hs⟩ := HandlePayload.mk.inj (Option.some.inj hb')
  exact HandleHistoryRow.mk.injEq .. ▸ ⟨hseq, hh, hp, hs⟩

/-- A current row is a history row with the largest sequence of its handle. -/
theorem BindingInvariant.mem_currentBindings_iff (row : CurrentBindingRow) :
    row ∈ s.currentBindings ↔ row.toHistory ∈ s.handleHistory ∧
      ∀ old ∈ s.handleHistory, old.handle = row.handle → old.seq ≤ row.seq := by
  constructor
  · intro hr
    refine ⟨h.sound row hr, ?_⟩
    intro old hold hhan
    obtain ⟨row', hr', hh', hle⟩ := h.current old hold
    obtain rfl : row' = row := inj_on_of_nodup_map h.nodup hr' hr (hh'.trans hhan)
    exact hle
  · rintro ⟨hold, hm⟩
    obtain ⟨row', hr', hhan, hle⟩ := h.current _ hold
    have hge := hm _ (h.sound row' hr') hhan
    have hsame := h.eq_of_seq hin hold (h.sound row' hr') (le_antisymm hle hge)
    obtain ⟨hseq, hh, hp, hs⟩ := HandleHistoryRow.mk.inj hsame
    obtain rfl : row = row' := CurrentBindingRow.mk.injEq .. ▸ ⟨hh, hp, hs, hseq⟩
    exact hr'

end

end

end Bindings

/-! ## The first claim owns the handle -/

/-- Entry `j` claims the handle, and no entry before it binds the handle. -/
structure FirstClaim (entries : List (EntryRow H)) (j : ℕ) (claim : HandleClaim) : Prop where
  claims : ∃ row v, entries[j]? = some row ∧ row.entry = .handleClaim v ∧ v.payload = claim
  first : ∀ k < j, ∀ row, entries[k]? = some row → ∀ binding,
    row.entry.handleBinding = some binding → binding.handle ≠ claim.handle

theorem FirstClaim.append {entries rest : List (EntryRow H)} {j : ℕ}
    (h : FirstClaim entries j claim) : FirstClaim (entries ++ rest) j claim := by
  obtain ⟨row, v, hr, hc⟩ := h.claims
  have hj := (List.getElem?_eq_some_iff.mp hr).1
  refine ⟨⟨row, v, ?_, hc⟩, ?_⟩
  · rw [List.getElem?_append_left hj]
    exact hr
  · intro k hk row' hr'
    rw [getElem?_append_left (hk.trans hj)] at hr'
    exact h.first k hk row' hr'

theorem FirstClaim.unique {entries : List (EntryRow H)} {j j' : ℕ} {claim' : HandleClaim}
    (h : FirstClaim entries j claim) (h' : FirstClaim entries j' claim')
    (hh : claim.handle = claim'.handle) : claim = claim' := by
  obtain ⟨row, v, hr, he, rfl⟩ := h.claims
  obtain ⟨row', v', hr', he', rfl⟩ := h'.claims
  rcases Nat.lt_trichotomy j j' with hlt | rfl | hgt
  · exact absurd hh (h'.first j hlt row hr v.payload (by rw [he]; rfl))
  · cases hr.symm.trans hr'
    rw [he] at he'
    rw [LogEntry.handleClaim.inj he']
  · exact absurd hh.symm (h.first j' hgt row' hr' v'.payload (by rw [he']; rfl))

/-- Every binding entry stands at or behind the first claim of its handle, which
has the same subject; and no subject holds too many handles. -/
structure OwnershipInvariant (s : Store H) : Prop where
  claimed : ∀ i row binding, s.entries[i]? = some row →
    row.entry.handleBinding = some binding → ∃ j claim, j ≤ i ∧ FirstClaim s.entries j claim ∧
      claim.handle = binding.handle ∧ claim.subject = binding.subject
  quota : ∀ subject, s.currentBindings.countP (fun row => row.subject = subject) ≤
    maxHandlesPerSubject

section Ownership

variable [Sha256 H] {ctx : RegistryContext} {s s' : Store H}

theorem exists_firstClaim_of_admitHandle (hinv : LogInvariant ctx s) (hbind : BindingInvariant s)
    (h : OwnershipInvariant s) {leaf : H} (ha : s.admitHandle request = .ok none) :
    ∃ j claim, j ≤ s.entries.length ∧
      FirstClaim (s.entries ++ [entryRow (s.handleEntry request) leaf]) j claim ∧
      claim.handle = request.handle ∧ claim.subject = request.subject := by
  rcases admitHandle_eq_none ha with ⟨hm, hn, -⟩ | ⟨-, row, hr, hs, -⟩
  · refine ⟨s.entries.length, ⟨request.handle, request.pubkey, request.subject⟩, le_rfl, ?_, rfl,
      rfl⟩
    constructor
    · refine ⟨entryRow (s.handleEntry request) leaf,
        ⟨logEntryVersion, UInt64.ofNat s.registryState.size, _, request.tsMs⟩, by simp, ?_, rfl⟩
      simp only [entryRow, handleEntry, hm]
      rfl
    · intro k hk old hold binding hb hh
      rw [getElem?_append_left hk] at hold
      obtain ⟨current, hc, hsame, -⟩ := hbind.current _ (hbind.mem_history hinv hold hb)
      exact find_eq_none_iff.mp hn current hc (hsame.trans hh)
  · obtain ⟨hmem, hh⟩ := (find_eq_some_iff hbind.nodup).mp hr
    obtain ⟨old, hold, hb⟩ := hbind.exists_entry hinv (hbind.sound row hmem)
    obtain ⟨j, claim, hle, hf, hch, hcs⟩ := h.claimed _ _ _ hold hb
    have hlt := (List.getElem?_eq_some_iff.mp hold).1
    exact ⟨j, claim, hle.trans hlt.le, hf.append, hch.trans hh, hcs.trans hs⟩

omit [Sha256 H] in
theorem quota_of_admitHandle (hb : BindingInvariant s) (h : OwnershipInvariant s)
    (ha : s.admitHandle request = .ok none) (subject : Bytes) (seq : ℕ) :
    (upsert (·.handle)
      (⟨request.handle, request.pubkey, request.subject, seq⟩ : CurrentBindingRow)
      s.currentBindings).countP (fun row => row.subject = subject) ≤ maxHandlesPerSubject := by
  rcases admitHandle_eq_none ha with ⟨-, -, hheld⟩ | ⟨-, row, hr, hs, -⟩
  · rw [(upsert_perm hb.nodup).countP_eq, countP_cons, countP_filter]
    by_cases hsame : request.subject = subject
    · subst hsame
      simpa [heldBySubject, Nat.succ_le_iff] using hheld
    · have hle : s.currentBindings.countP (fun row => decide (row.subject = subject) &&
          decide (row.handle ≠ request.handle)) ≤
          s.currentBindings.countP (fun row => row.subject = subject) :=
        countP_mono_left (by simp_all)
      simpa [hsame] using hle.trans (h.quota subject)
  · obtain ⟨hm, hh⟩ := (find_eq_some_iff hb.nodup).mp hr
    rw [countP_upsert_of_mem _ hb.nodup hm hh (by simp [hs])]
    exact h.quota subject

/-- The claims behind old entries stay, the one behind the new entry is given. -/
theorem Store.Appended.claimed (ha : Appended ctx entry s s')
    (h : OwnershipInvariant s)
    (hn : ∀ (leaf : H) binding, entry.handleBinding = some binding →
      ∃ j claim, j ≤ s.entries.length ∧ FirstClaim (s.entries ++ [entryRow entry leaf]) j claim ∧
        claim.handle = binding.handle ∧ claim.subject = binding.subject)
    (i : ℕ) (row : EntryRow H) (binding : HandlePayload) (hr : s'.entries[i]? = some row)
    (hb : row.entry.handleBinding = some binding) :
    ∃ j claim, j ≤ i ∧ FirstClaim s'.entries j claim ∧ claim.handle = binding.handle ∧
      claim.subject = binding.subject := by
  obtain ⟨bytes, -, he⟩ := ha.entries
  rw [he] at hr ⊢
  rcases Nat.lt_or_ge i s.entries.length with hlt | hge
  · rw [getElem?_append_left hlt] at hr
    obtain ⟨j, claim, hle, hf, hs⟩ := h.claimed i row binding hr hb
    exact ⟨j, claim, hle, hf.append, hs⟩
  · rw [getElem?_append_right hge] at hr
    obtain rfl : row = entryRow entry (leafHash bytes) := mem_singleton.mp (mem_of_getElem? hr)
    obtain ⟨j, claim, hle, hc⟩ := hn (leafHash bytes) binding hb
    exact ⟨j, claim, hle.trans hge, hc⟩

theorem Store.Appended.ownershipInvariant (hinv : LogInvariant ctx s)
    {op : RegistryOp} (hacc : Admitted s op entry) (ha : Appended ctx entry s s')
    (hbind : BindingInvariant s) (h : OwnershipInvariant s) : OwnershipInvariant s' := by
  cases hacc with
  | handle request _ hacc =>
    have hb := handleBinding_handleEntry s request
    refine ⟨ha.claimed h ?_, ?_⟩
    · intro leaf binding hn
      cases hb.symm.trans hn
      exact exists_firstClaim_of_admitHandle hinv hbind h hacc
    · intro subject
      rw [ha.bindings, bindingsAfter_of_some hb]
      exact quota_of_admitHandle hbind h hacc subject _
  | compliance =>
    refine ⟨ha.claimed h ?_, ?_⟩
    · intro leaf binding hn
      simp [LogEntry.complianceKey, LogEntry.handleBinding] at hn
    · intro subject
      rw [ha.bindings]
      exact h.quota subject
  | directory mutation tsMs =>
    have hb : (s.directoryEntry mutation tsMs).handleBinding = none := by
      cases mutation <;> rfl
    refine ⟨ha.claimed h ?_, ?_⟩
    · intro leaf binding hn
      simp [hb] at hn
    · intro subject
      rw [ha.bindings, bindingsAfter_of_none hb]
      exact h.quota subject

end Ownership

/-! ## Whole runs -/

section Runs

variable [Sha256 H] [HashBytes H] [DecidableEq H] {ctx : RegistryContext} {s : Store H}

theorem runOps_ownership (ops : List RegistryOp) (hinv : LogInvariant ctx s)
    (hb : BindingInvariant s) (h : OwnershipInvariant s) :
    LogInvariant ctx (runOps ctx ops s) ∧ BindingInvariant (runOps ctx ops s) ∧
      OwnershipInvariant (runOps ctx ops s) := by
  refine runOps_induction (P := fun s => BindingInvariant s ∧ OwnershipInvariant s) ops ?_ ?_ hinv
    ⟨hb, h⟩
  · rintro op - s s' entry hinv hacc ha ⟨hb, h⟩
    exact ⟨ha.bindingInvariant hinv hb, ha.ownershipInvariant hinv hacc hb h⟩
  · rintro s s' hs ⟨hb, h⟩
    rw [hs.sameLog]
    exact ⟨⟨hb.history, hb.nodup, hb.sound, hb.current⟩, ⟨h.claimed, h.quota⟩⟩

theorem Reachable.ownership (hr : Reachable ctx s) :
    LogInvariant ctx s ∧ BindingInvariant s ∧ OwnershipInvariant s := by
  obtain ⟨ops, rfl⟩ := hr
  exact runOps_ownership ops (logInvariant_fresh ctx) (bindingInvariant_fresh ctx)
    ⟨by simp [fresh], by simp [fresh]⟩

/-- Over every run: a handle's subject is that of its first claim, no subject holds
more handles than allowed, the current bindings are the newest history rows, a
rotation follows a claim of the same handle and subject, and a handle request that
fails or appends nothing leaves the store as it was. -/
theorem handle_ownership (ctx : RegistryContext) (ops : List RegistryOp) :
    let s : Store H := runOps ctx ops (fresh ctx)
    (∀ (i : ℕ) (row : EntryRow H) (binding : HandlePayload), s.entries[i]? = some row →
      row.entry.handleBinding = some binding →
      ∃ j claim, j ≤ i ∧ FirstClaim s.entries j claim ∧ claim.handle = binding.handle ∧
        claim.subject = binding.subject) ∧
    (∀ old ∈ s.handleHistory, ∀ row ∈ s.currentBindings, old.handle = row.handle →
      old.subject = row.subject) ∧
    (∀ subject, s.currentBindings.countP (fun row => row.subject = subject) ≤
      maxHandlesPerSubject) ∧
    (s.currentBindings.map (·.handle)).Nodup ∧
    (∀ row, row ∈ s.currentBindings ↔ row.toHistory ∈ s.handleHistory ∧
      ∀ old ∈ s.handleHistory, old.handle = row.handle → old.seq ≤ row.seq) ∧
    (∀ (i : ℕ) (row : EntryRow H) (v : Versioned HandleRotation), s.entries[i]? = some row →
      row.entry = .handleRotation v →
      ∃ j < i, ∃ (claimRow : EntryRow H) (w : Versioned HandleClaim),
        s.entries[j]? = some claimRow ∧ claimRow.entry = .handleClaim w ∧
        w.payload.handle = v.payload.handle ∧ w.payload.subject = v.payload.subject) ∧
    ∀ nowMs request, (∀ seq, (transact (appendHandleInTransaction ctx nowMs request) s).2 ≠
        .ok ⟨seq, true⟩) →
      (transact (appendHandleInTransaction ctx nowMs request) s).1 = s := by
  intro s
  have hreach : Reachable ctx s := ⟨ops, rfl⟩
  obtain ⟨hinv, hbind, ho⟩ := hreach.ownership
  refine ⟨ho.claimed, ?_, ho.quota, hbind.nodup, hbind.mem_currentBindings_iff hinv, ?_, ?_⟩
  · intro old hold row hrow hhan
    obtain ⟨_, he, hb⟩ := hbind.exists_entry hinv hold
    obtain ⟨_, he', hb'⟩ := hbind.exists_entry hinv (hbind.sound row hrow)
    obtain ⟨j, claim, -, hf, hh, hs⟩ := ho.claimed _ _ _ he hb
    obtain ⟨j', claim', -, hf', hh', hs'⟩ := ho.claimed _ _ _ he' hb'
    obtain rfl := hf.unique hf' (hh.trans (hhan.trans hh'.symm))
    exact hs.symm.trans hs'
  · intro i row v hrow he
    obtain ⟨j, claim, hle, hf, hh, hs⟩ := ho.claimed i row v.payload hrow (by rw [he]; rfl)
    obtain ⟨claimRow, w, hcr, hc, rfl⟩ := hf.claims
    have hne : j ≠ i := by
      rintro rfl
      cases hrow.symm.trans hcr
      rw [he] at hc
      simp at hc
    exact ⟨j, by omega, claimRow, w, hcr, hc, hh, hs⟩
  · intro nowMs request hr
    rcases transact_cases (appendHandleInTransaction ctx nowMs request) s with
      hsame | ⟨result, hok⟩
    · exact hsame
    · rcases appendHandleInTransaction_eq_ok hinv hok with ⟨-, hsame, -⟩ | ⟨-, -, hseq⟩
      · exact hsame
      · rw [hseq] at hok
        exact absurd (congrArg Prod.snd (transact_of_ok hok)) (hr _)

end Runs

end Pigeonpost
