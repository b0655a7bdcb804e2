import Pigeonpost.Program.Directory.Entry
import Pigeonpost.Verification.Shared.SampleDirectory

/-! # Stable and diverse lofts

The lofts of an address depend on the entries of the pool, not on their order, and an entry
that is not selected has no influence on those that are. -/

namespace Pigeonpost

open List Std

variable {F : Type} {count : ℕ} {pool other : List (DirectoryEntry F)} {entry : DirectoryEntry F}
  {a b : Bytes32 × DirectoryEntry F}

/-- No two entries of one key at one endpoint. -/
abbrev Distinct (pool : List (DirectoryEntry F)) : Prop :=
  (pool.map fun entry => (entry.pubkey, entry.endpoint)).Nodup

section

variable (sha256 : Bytes → Bytes32) (address : Bytes)

/-- The first entry comes before the second in the ranking. -/
def Outranks (first second : DirectoryEntry F) : Prop :=
  ∃ a b, rankEntry sha256 address first = some a ∧ rankEntry sha256 address second = some b ∧
    rankOrder a b = .lt

/-- The reasons for leaving out an entry. -/
def LeftOut (count : ℕ) (selected : List (DirectoryEntry F)) (entry : DirectoryEntry F) : Prop :=
  selected.length = count ∧ (∀ one ∈ selected, Outranks sha256 address one entry) ∨
    ∃ one ∈ selected, Outranks sha256 address one entry ∧
      ¬one.failureDomains.Disjoint entry.failureDomains

end

/-! ## The ranking -/

variable {sha256 : Bytes → Bytes32} {address : Bytes}

instance : TransCmp (rankOrder (F := F)) := by
  unfold rankOrder
  infer_instance

theorem rankEntry_snd (h : rankEntry sha256 address entry = some a) : a.2 = entry := by
  simp only [rankEntry, Option.bind_eq_bind, Option.bind_eq_some_iff] at h
  obtain ⟨-, -, key, -, ha⟩ := h
  rw [← Option.some.inj ha]

theorem mem_rankPool :
    a ∈ rankPool sha256 address pool ↔ a.2 ∈ pool ∧ rankEntry sha256 address a.2 = some a := by
  rw [rankPool, mem_mergeSort, mem_filterMap]
  constructor
  · rintro ⟨entry, hm, hr⟩
    rw [rankEntry_snd hr]
    exact ⟨hm, hr⟩
  · exact fun h => ⟨a.2, h⟩

theorem pairwise_rankPool :
    (rankPool sha256 address pool).Pairwise fun a b => (rankOrder a b).isLE := by
  refine pairwise_mergeSort (fun _ _ _ => TransCmp.isLE_trans) (fun a b => ?_) _
  have hs : rankOrder b a = (rankOrder a b).swap := OrientedCmp.eq_swap
  rw [hs]
  cases rankOrder a b <;> rfl

theorem eq_of_rankOrder (hd : Distinct pool) (ha : a.2 ∈ pool) (hb : b.2 ∈ pool)
    (h : rankOrder a b = .eq) : a = b := by
  simp only [rankOrder, compareLex_eq_eq, compareOn, Std.compare_eq_iff_eq] at h
  obtain ⟨hdig, hk, he⟩ := h
  exact Prod.ext (Vector.toList_inj.mp hdig) (inj_on_of_nodup_map hd ha hb (Prod.ext hk he))

/-- The ranking is the only sorted arrangement of what it ranks. -/
theorem eq_rankPool {xs : List (Bytes32 × DirectoryEntry F)} (hd : Distinct pool)
    (hp : xs ~ pool.filterMap (rankEntry sha256 address))
    (hs : xs.Pairwise fun a b => (rankOrder a b).isLE) : xs = rankPool sha256 address pool := by
  have hp : xs ~ rankPool sha256 address pool := hp.trans (mergeSort_perm _ _).symm
  refine Perm.eq_of_pairwise (fun a b ha hb hab hba => ?_) hs pairwise_rankPool hp
  exact eq_of_rankOrder hd (mem_rankPool.mp (hp.subset ha)).1 (mem_rankPool.mp hb).1
    (OrientedCmp.isLE_antisymm hab hba)

/-! ## The selection -/

theorem rendezvous_perm (hd : Distinct pool) (h : other ~ pool) :
    rendezvous sha256 address other count = rendezvous sha256 address pool count := by
  have hr : rankPool sha256 address other = rankPool sha256 address pool :=
    eq_rankPool hd ((mergeSort_perm _ _).trans (h.filterMap _)) pairwise_rankPool
  rw [rendezvous, hr, rendezvous]

theorem rendezvous_of_notMem (hd : Distinct (entry :: pool))
    (hr : rankEntry sha256 address entry = some a)
    (h : entry ∉ rendezvous sha256 address (entry :: pool) count) :
    rendezvous sha256 address (entry :: pool) count = rendezvous sha256 address pool count ∧
      LeftOut sha256 address count (rendezvous sha256 address pool count) entry := by
  obtain rfl := rankEntry_snd hr
  have ha : a ∈ rankPool sha256 address (a.2 :: pool) := mem_rankPool.mpr ⟨mem_cons_self, hr⟩
  have hin : ∀ b ∈ rankPool sha256 address (a.2 :: pool), _ := fun b hb => mem_rankPool.mp hb
  have hs : (rankPool sha256 address (a.2 :: pool)).Pairwise _ := pairwise_rankPool
  have hp : rankPool sha256 address (a.2 :: pool) ~ _ := mergeSort_perm _ _
  unfold rendezvous at h ⊢
  obtain ⟨xs, ys, hxs⟩ := append_of_mem ha
  rw [hxs] at h hin hs hp ⊢
  rw [filterMap_cons_some hr] at hp
  have hrest : xs ++ ys = rankPool sha256 address pool :=
    eq_rankPool (nodup_cons.mp hd).2 ((perm_cons a).mp (perm_middle.symm.trans hp))
      (hs.sublist ((sublist_cons_self a ys).append_left xs))
  rw [← hrest]
  have hn : a ∉ chooseDiverse count (xs ++ a :: ys) := fun hc => h (mem_map_of_mem hc)
  obtain ⟨heq, hcase⟩ := Greedy.choose_of_notMem hn
  rw [← chooseDiverse] at heq hcase
  rw [heq] at hn ⊢
  have ho : ∀ b ∈ xs, b ∈ chooseDiverse count (xs ++ ys) → Outranks sha256 address b.2 a.2 := by
    intro b hb hc
    obtain ⟨hm, hb'⟩ := hin b (mem_append_left _ hb)
    refine ⟨b, a, hb', hr, ?_⟩
    have hle := (pairwise_append.mp hs).2.2 b hb a mem_cons_self
    cases ho : rankOrder b a with
    | lt => rfl
    | eq => exact absurd (eq_of_rankOrder hd hm mem_cons_self ho ▸ hc) hn
    | gt => simp [ho] at hle
  refine ⟨rfl, ?_⟩
  rcases hcase with ⟨hl, hall⟩ | ⟨b, hc, hb, hsh⟩
  · refine .inl ⟨by rw [length_map, hl], fun one hone => ?_⟩
    obtain ⟨b, hc, rfl⟩ := mem_map.mp hone
    exact ho b (hall b hc) hc
  · exact .inr ⟨b.2, mem_map_of_mem hc, ho b hb hc, hsh⟩

/-- Rendezvous selection is stable and diverse. -/
theorem rendezvous_stable_diverse (sha256 : Bytes → Bytes32) (address : Bytes) (count : ℕ)
    (pool : List (DirectoryEntry F)) (hd : Distinct pool) :
    let selected := rendezvous sha256 address pool count
    selected.length ≤ count ∧
    selected.Pairwise (fun first second =>
      first.failureDomains.Disjoint second.failureDomains) ∧
    (∀ other, other ~ pool → rendezvous sha256 address other count = selected) ∧
    (∀ entry ∈ pool, rankEntry sha256 address entry ≠ none → entry ∉ selected →
      LeftOut sha256 address count selected entry) ∧
    ∀ before entry after, pool = before ++ entry :: after → entry ∉ selected →
      rendezvous sha256 address (before ++ after) count = selected := by
  intro selected
  have hc : Greedy.Chosen count (fun ranked => ranked.2.failureDomains)
    (rankPool sha256 address pool) _ := Greedy.chosen_foldl _
  have hmove : ∀ before entry after, pool = before ++ entry :: after →
      Distinct (entry :: (before ++ after)) ∧
        selected = rendezvous sha256 address (entry :: (before ++ after)) count := by
    rintro before entry after rfl
    have hp : before ++ entry :: after ~ entry :: (before ++ after) := perm_middle
    exact ⟨(hp.map _).nodup_iff.mp hd, (rendezvous_perm hd hp.symm).symm⟩
  refine ⟨(length_map _).trans_le hc.length_le, pairwise_map.mpr hc.disjoint,
    fun other h => rendezvous_perm hd h, fun entry hm hr h => ?_,
    fun before entry after heq h => ?_⟩
  · obtain ⟨before, after, heq⟩ := append_of_mem hm
    obtain ⟨hd', hs⟩ := hmove before entry after heq
    obtain ⟨a, ha⟩ := Option.ne_none_iff_exists'.mp hr
    rw [hs] at h ⊢
    obtain ⟨hrest, hl⟩ := rendezvous_of_notMem hd' ha h
    rw [hrest]
    exact hl
  · obtain ⟨hd', hs⟩ := hmove before entry after heq
    rw [hs] at h ⊢
    cases ha : rankEntry sha256 address entry with
    | none => rw [rendezvous, rendezvous, rankPool, rankPool, filterMap_cons_none ha]
    | some a => exact (rendezvous_of_notMem hd' ha h).1.symm

section Sample

open SampleDirectory

def samplePool : List (DirectoryEntry ℕ) :=
  [(0x33, "nest"), (0x32, "loft"), (0x31, "loft")].map fun loft =>
    { loftEntry loft.1 0 with endpoint := ascii ("https://" ++ loft.2), state := .active }

def sampleDigest (data : Bytes) : Bytes32 := Vector.replicate 32 (data.headD 0)

/-- The two lofts of one host are not both selected. -/
theorem rendezvous_stable_diverse_sample :
    (rendezvous sampleDigest [] samplePool 2).map (·.pubkey.head?) = [some 0x31, some 0x33] ∧
      ∀ entry ∈ samplePool, rankEntry sampleDigest [] entry ≠ none →
        entry ∉ rendezvous sampleDigest [] samplePool 2 →
          LeftOut sampleDigest [] 2 (rendezvous sampleDigest [] samplePool 2) entry := by
  have hd : Distinct samplePool := by decide +kernel
  refine ⟨?_, (rendezvous_stable_diverse _ _ _ _ hd).2.2.2.1⟩
  rw [rendezvous, ← eq_rankPool hd (reverse_perm _) (by decide +kernel)]
  decide +kernel

end Sample

end Pigeonpost
