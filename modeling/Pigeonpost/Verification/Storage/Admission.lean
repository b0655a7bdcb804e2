import Pigeonpost.Program.Storage.Admission
import Mathlib.Algebra.BigOperators.Group.Finset.Basic
import Mathlib.Data.Prod.Lex
import Mathlib.Data.Fintype.Basic

/-! # Global admission is never exceeded

Processes interleave between the plain read and the transaction of a call, fail and
crash. Spent and reserved slots of a minute together stay below the limit. -/

namespace Pigeonpost

/-! ## Slots of a batch -/

def GlobalBindingAdmissionBatch.slots (batch : GlobalBindingAdmissionBatch) (minute : ℕ) : ℕ :=
  batch.lease.elim 0 fun lease => if lease.minute = minute then lease.remaining else 0

namespace GlobalBindingAdmissionBatch

variable (batch : GlobalBindingAdmissionBatch) (minute : ℕ)

theorem slots_of_lease_none {batch : GlobalBindingAdmissionBatch} (h : batch.lease = none) :
    batch.slots minute = 0 := by
  rw [slots, h]
  rfl

theorem slots_advance_le (next : ℕ) : (batch.advance next).slots minute ≤ batch.slots minute := by
  unfold advance
  split
  · rw [slots_of_lease_none minute rfl]
    exact Nat.zero_le _
  · exact le_rfl

theorem slots_validate_le (observed : ℕ × ℕ) :
    (validateGlobalBindingObservation batch observed).1.slots minute ≤ batch.slots minute := by
  unfold validateGlobalBindingObservation
  split_ifs
  · rw [slots_of_lease_none minute rfl]
    exact Nat.zero_le _
  · exact le_rfl
  · exact le_rfl

end GlobalBindingAdmissionBatch

open GlobalBindingAdmissionBatch

variable {batch batch' : GlobalBindingAdmissionBatch} {timestampMs limit : ℕ}
  {result : Except RegistryError Unit}

def admission (result : Except RegistryError Unit) (timestampMs minute : ℕ) : ℕ :=
  if result = .ok () ∧ windowMinute timestampMs = minute then 1 else 0

variable {read : Except RegistryError (ℕ × ℕ)}

theorem spend_slots
    (h : spendGlobalBindingAdmission read batch timestampMs limit = (batch', some result))
    (minute : ℕ) :
    batch'.slots minute + admission result timestampMs minute ≤ batch.slots minute := by
  have he : ∀ {b : GlobalBindingAdmissionBatch} {e : RegistryError},
      (b, some (.error e)) = (batch', some result) → b.slots minute ≤ batch.slots minute →
      batch'.slots minute + admission result timestampMs minute ≤ batch.slots minute := by
    intro b e heq hle
    obtain ⟨rfl, rfl⟩ := heq
    exact hle
  unfold spendGlobalBindingAdmission at h
  simp only at h
  split at h
  · exact he h le_rfl
  split at h
  · exact he h le_rfl
  have hf := slots_advance_le batch minute (windowMinute timestampMs)
  split at h
  · exact he h hf
  next observed =>
  have hs := (slots_validate_le (batch.advance (windowMinute timestampMs)) minute observed).trans hf
  split at h
  · rename_i hv
    rw [hv] at hs
    exact he h hs
  · rename_i checked hv
    rw [hv] at hs
    have ht := (slots_advance_le checked minute observed.1).trans hs
    split at h
    · exact he h ht
    · split at h
      · simp at h
      · rename_i lease hl
        split at h
        · refine he h ?_
          exact Nat.zero_le _
        · simp only [Prod.mk.injEq, Option.some.injEq] at h
          obtain ⟨rfl, rfl⟩ := h
          obtain ⟨hl, hu⟩ := Option.filter_eq_some_iff.mp hl
          simp only [leaseIsUsable, Bool.and_eq_true, decide_eq_true_eq] at hu
          obtain ⟨⟨hm, -⟩, hp⟩ := hu
          refine le_trans ?_ ht
          rw [slots, slots, hl, admission]
          simp only [Option.elim_some, true_and, hm]
          split_ifs
          · omega
          · exact le_rfl

/-- A call that goes on to its transaction has given up its lease. -/
theorem spend_refill
    (h : spendGlobalBindingAdmission read batch timestampMs limit = (batch', none)) :
    batch'.lease = none := by
  unfold spendGlobalBindingAdmission at h
  simp only at h
  split at h
  · simp at h
  split at h
  · simp at h
  split at h
  · simp at h
  split at h
  · simp at h
  split at h
  · simp at h
  split at h
  · simp only [Prod.mk.injEq, and_true] at h
    rw [← h]
  · split at h <;> simp at h

theorem planReservation_eq_ok {stored : ℕ × ℕ} {minute reserved next : ℕ}
    (h : planReservation stored batch minute limit = (batch', .ok (reserved, next))) :
    stored.1 ≤ minute ∧ next = (if minute > stored.1 then 0 else stored.2) + reserved ∧
      next ≤ limit ∧ 0 < reserved := by
  unfold planReservation at h
  split at h
  · simp at h
  simp only at h
  generalize (if minute > stored.1 then 0 else stored.2) = admitted at h ⊢
  split_ifs at h with hm hl <;>
    simp only [Prod.mk.injEq, Except.ok.injEq, reduceCtorEq, and_false] at h
  obtain ⟨-, rfl, rfl⟩ := h
  have hs : 0 < globalBindingAdmissionBatchSize := by decide
  exact ⟨Nat.not_lt.mp hm, rfl, by omega, by omega⟩

theorem planReservation_slots (stored : ℕ × ℕ) (batch : GlobalBindingAdmissionBatch)
    (minute limit m : ℕ) :
    (planReservation stored batch minute limit).1.slots m ≤ batch.slots m := by
  have hv := slots_validate_le batch m stored
  unfold planReservation
  split
  · rename_i hc
    rw [hc] at hv
    exact hv
  · rename_i checked hc
    rw [hc] at hv
    refine le_trans ?_ hv
    simp only
    split_ifs
    all_goals exact le_rfl

/-- What a transaction can do: nothing to the row, or add a reservation to it that
covers the new slots and the admission of the call. -/
theorem refill_cases {outcome : TransactionOutcome} {stored row : ℕ × ℕ}
    (h : refillGlobalBindingAdmission outcome stored batch timestampMs limit =
    (row, batch', result)) :
    row = stored ∧ (∀ m, batch'.slots m + admission result timestampMs m ≤ batch.slots m) ∨
    ∃ reserved, stored.1 ≤ windowMinute timestampMs ∧ row = (windowMinute timestampMs,
        (if windowMinute timestampMs > stored.1 then 0 else stored.2) + reserved) ∧
      row.2 ≤ limit ∧
      ∀ m, batch'.slots m + admission result timestampMs m ≤
        batch.slots m + if windowMinute timestampMs = m then reserved else 0 := by
  have he : ∀ {b : GlobalBindingAdmissionBatch} {e : RegistryError},
      (stored, b, .error e) = (row, batch', result) → (∀ m, b.slots m ≤ batch.slots m) →
      row = stored ∧ ∀ m, batch'.slots m + admission result timestampMs m ≤ batch.slots m := by
    intro b e heq hle
    obtain ⟨rfl, rfl, rfl⟩ := heq
    exact ⟨rfl, hle⟩
  unfold refillGlobalBindingAdmission at h
  simp only at h
  split at h
  · exact .inl (he h fun _ => le_rfl)
  · have hs := planReservation_slots stored batch (windowMinute timestampMs) limit
    split at h
    · rename_i hp
      rw [hp] at hs
      exact .inl (he h hs)
    · rename_i reserved next hp
      rw [hp] at hs
      obtain ⟨hm, hn, hl, hpos⟩ := planReservation_eq_ok hp
      split at h
      · exact .inl (he h hs)
      · exact .inl (he h hs)
      · obtain ⟨rfl, rfl, rfl⟩ := h
        refine .inr ⟨reserved, hm, by rw [← hn], hl, ?_⟩
        intro m
        exact (hs m).trans (Nat.le_add_right _ _)
      · obtain ⟨rfl, rfl, rfl⟩ := h
        refine .inr ⟨reserved, hm, by rw [← hn], hl, ?_⟩
        intro m
        simp only [slots, Option.elim_some, admission, true_and]
        split_ifs <;> omega

/-! ## Processes over one row -/

/-- The shared row, the batch of each process, the calls that wait for their
transaction, and the timestamps of the calls that returned `Ok`. -/
structure AdmissionSystem (ι : Type) where
  row : ℕ × ℕ
  batch : ι → GlobalBindingAdmissionBatch
  waiting : ι → Option ℕ
  admitted : List ℕ

/-- A call up to its transaction, with a read that may fail; the transaction of a
waiting call; or the loss of a process with its batch. -/
inductive AdmissionEvent (ι : Type) where
  | call (p : ι) (timestampMs : ℕ) (readError : Option RegistryError)
  | transaction (p : ι) (outcome : TransactionOutcome)
  | crash (p : ι)

namespace AdmissionSystem

variable {ι : Type} [DecidableEq ι]

/-- New processes over a stored row. -/
def start (row : ℕ × ℕ) : AdmissionSystem ι := ⟨row, fun _ => .fresh, fun _ => none, []⟩

/-- A process has new local state, and its call may have returned. -/
def update (s : AdmissionSystem ι) (p : ι) (row : ℕ × ℕ) (batch : GlobalBindingAdmissionBatch)
    (waiting : Option ℕ) (returned : List ℕ) : AdmissionSystem ι :=
  ⟨row, Function.update s.batch p batch, Function.update s.waiting p waiting,
    returned ++ s.admitted⟩

/-- The timestamp of a call that returned `Ok`. -/
def returned (result : Except RegistryError Unit) (timestampMs : ℕ) : List ℕ :=
  if result = .ok () then [timestampMs] else []

def step (limit : ℕ) (s : AdmissionSystem ι) : AdmissionEvent ι → AdmissionSystem ι
  | .call p timestampMs readError =>
    if (s.waiting p).isSome then s
    else
      let read := readError.elim (.ok s.row) .error
      match spendGlobalBindingAdmission read (s.batch p) timestampMs limit with
      | (batch, some result) => s.update p s.row batch none (returned result timestampMs)
      | (batch, none) => s.update p s.row batch (some timestampMs) []
  | .transaction p outcome =>
    match s.waiting p with
    | none => s
    | some timestampMs =>
      let (row, batch, result) :=
        refillGlobalBindingAdmission outcome s.row (s.batch p) timestampMs limit
      s.update p row batch none (returned result timestampMs)
  | .crash p => s.update p s.row .fresh none []

def run (limit : ℕ) (s : AdmissionSystem ι) (events : List (AdmissionEvent ι)) :
    AdmissionSystem ι :=
  events.foldl (step limit) s

/-- The calls of a minute that returned `Ok`. -/
def admittedIn (s : AdmissionSystem ι) (minute : ℕ) : ℕ :=
  s.admitted.countP fun timestampMs => windowMinute timestampMs = minute

omit [DecidableEq ι] in
theorem countP_returned (result : Except RegistryError Unit) (timestampMs minute : ℕ) :
    (returned result timestampMs).countP (fun t => windowMinute t = minute) =
      admission result timestampMs minute := by
  unfold returned admission
  by_cases hok : result = .ok ()
  · by_cases hm : windowMinute timestampMs = minute <;> simp [hok, hm]
  · simp [hok]

variable [Fintype ι] {s : AdmissionSystem ι} {waiting : Option ℕ} {p : ι}

/-- The admissions of a minute, spent or still reserved by some process. -/
def committed (s : AdmissionSystem ι) (minute : ℕ) : ℕ :=
  s.admittedIn minute + ∑ p, (s.batch p).slots minute

/-- Nothing is committed for later minutes, the row covers its own minute, and the
limit covers every minute. -/
structure Covered (limit : ℕ) (s : AdmissionSystem ι) : Prop where
  later : ∀ minute, s.row.1 < minute → s.committed minute = 0
  current : s.committed s.row.1 ≤ s.row.2
  limited : ∀ minute, s.committed minute ≤ limit

/-- What an update commits beyond what was committed before. -/
theorem committed_update {row : ℕ × ℕ}
    {minute extra : ℕ}
    (h : batch.slots minute + admission result timestampMs minute ≤
    (s.batch p).slots minute + extra) :
    (s.update p row batch waiting (returned result timestampMs)).committed minute ≤
      s.committed minute + extra := by
  have hs : ∀ f : ι → GlobalBindingAdmissionBatch, ∑ q, (f q).slots minute =
      (f p).slots minute + ∑ q ∈ Finset.univ.erase p, (f q).slots minute := fun f =>
    (Finset.add_sum_erase _ (fun q => (f q).slots minute) (Finset.mem_univ p)).symm
  have hr : ∑ q ∈ Finset.univ.erase p, (Function.update s.batch p batch q).slots minute =
      ∑ q ∈ Finset.univ.erase p, (s.batch q).slots minute := by
    apply Finset.sum_congr rfl
    intro q hq
    rw [Function.update_of_ne (Finset.ne_of_mem_erase hq)]
  simp only [committed, admittedIn, update, List.countP_append, countP_returned]
  rw [hs s.batch, hs (Function.update s.batch p batch), Function.update_self]
  omega

/-- An update that commits nothing new and leaves the row keeps the bounds. -/
theorem Covered.update (hs : s.Covered limit)
    (result : Except RegistryError Unit) (timestampMs : ℕ)
    (h : ∀ minute, batch.slots minute + admission result timestampMs minute ≤
    (s.batch p).slots minute) :
    (s.update p s.row batch waiting (returned result timestampMs)).Covered limit := by
  have hle : ∀ minute, (s.update p s.row batch waiting
      (returned result timestampMs)).committed minute ≤ s.committed minute + 0 := fun minute =>
    committed_update (h minute)
  refine ⟨?_, (hle _).trans hs.current, fun minute => (hle minute).trans (hs.limited minute)⟩
  intro minute hl
  exact Nat.le_zero.mp ((hle minute).trans (hs.later minute hl).le)

theorem Covered.reserve (hs : s.Covered limit) {reserved : ℕ}
    (hm : s.row.1 ≤ windowMinute timestampMs)
    (hlimit : (if windowMinute timestampMs > s.row.1 then 0 else s.row.2) + reserved ≤ limit)
    (h : ∀ minute, batch.slots minute + admission result timestampMs minute ≤
    (s.batch p).slots minute + if windowMinute timestampMs = minute then reserved else 0) :
    (s.update p (windowMinute timestampMs,
      (if windowMinute timestampMs > s.row.1 then 0 else s.row.2) + reserved) batch none
      (returned result timestampMs)).Covered limit := by
  generalize hn : windowMinute timestampMs = now at *
  have hle : ∀ minute, (s.update p (now, (if now > s.row.1 then 0 else s.row.2) + reserved) batch
      none (returned result timestampMs)).committed minute ≤
        s.committed minute + if now = minute then reserved else 0 := fun minute =>
    committed_update (h minute)
  have hbef : s.committed now ≤ if now > s.row.1 then 0 else s.row.2 := by
    split_ifs with hlt
    · exact (hs.later now hlt).le
    · obtain rfl : s.row.1 = now := by omega
      exact hs.current
  have hnl : (s.update p (now, (if now > s.row.1 then 0 else s.row.2) + reserved) batch
      none (returned result timestampMs)).committed now ≤
        (if now > s.row.1 then 0 else s.row.2) + reserved := by
    have := hle now
    rw [if_pos rfl] at this
    omega
  refine ⟨?_, hnl, ?_⟩
  · intro minute (hl : now < minute)
    have hb := hle minute
    rw [if_neg hl.ne, hs.later minute (hm.trans_lt hl)] at hb
    exact Nat.le_zero.mp hb
  · intro minute
    by_cases hsame : now = minute
    · rw [← hsame]
      exact hnl.trans hlimit
    · have hb := hle minute
      rw [if_neg hsame] at hb
      exact hb.trans (hs.limited minute)

omit [DecidableEq ι] in
theorem covered_start (limit : ℕ) (row : ℕ × ℕ) :
    (start row : AdmissionSystem ι).Covered limit := by
  have hz : ∀ minute, (start row : AdmissionSystem ι).committed minute = 0 := by
    simp [committed, admittedIn, start, slots, GlobalBindingAdmissionBatch.fresh]
  exact ⟨fun minute _ => hz minute, (hz _).le.trans (Nat.zero_le _),
    fun minute => (hz minute).le.trans (Nat.zero_le _)⟩

variable {s : AdmissionSystem ι}

theorem Covered.step (hs : s.Covered limit) (event : AdmissionEvent ι) :
    (s.step limit event).Covered limit := by
  have hq : ∀ {p : ι} {batch : GlobalBindingAdmissionBatch} {waiting : Option ℕ},
      batch.lease = none → (s.update p s.row batch waiting []).Covered limit := by
    intro p batch waiting hl
    refine hs.update (.error .notFound) 0 fun minute => ?_
    rw [slots_of_lease_none minute hl]
    exact Nat.zero_le _
  cases event with
  | call _ timestampMs =>
    rw [AdmissionSystem.step]
    split
    · exact hs
    simp only
    split
    · next batch result hspend => exact hs.update result timestampMs (spend_slots hspend)
    · next batch hspend => exact hq (spend_refill hspend)
  | transaction p outcome =>
    rw [AdmissionSystem.step]
    split
    · exact hs
    rename_i timestampMs _
    rcases hr : refillGlobalBindingAdmission outcome s.row (s.batch p) timestampMs
      limit with ⟨row, batch, result⟩
    rcases refill_cases hr with ⟨rfl, hslots⟩ | ⟨reserved, hm, rfl, hlimit, hslots⟩
    · exact hs.update result timestampMs hslots
    · exact hs.reserve hm hlimit hslots
  | crash => exact hq rfl

theorem Covered.run (hs : s.Covered limit) (events : List (AdmissionEvent ι)) :
    (s.run limit events).Covered limit := by
  induction events generalizing s with
  | nil => exact hs
  | cons event _ ih => exact ih (hs.step event)

omit [Fintype ι] in
theorem row_step (limit : ℕ) (s : AdmissionSystem ι) (event : AdmissionEvent ι) :
    toLex s.row ≤ toLex (s.step limit event).row := by
  cases event with
  | call =>
    rw [step]
    split
    · exact le_rfl
    · simp only
      split <;> exact le_rfl
  | transaction p outcome =>
    rw [step]
    split
    · exact le_rfl
    rename_i timestampMs _
    rcases hr : refillGlobalBindingAdmission outcome s.row (s.batch p) timestampMs
      limit with ⟨row, batch, result⟩
    rcases refill_cases hr with ⟨rfl, -⟩ | ⟨reserved, hm, rfl, -⟩
    · exact le_rfl
    · rw [Prod.Lex.toLex_le_toLex]
      rcases hm.lt_or_eq with hlt | heq
      · exact .inl hlt
      · refine .inr ⟨heq, ?_⟩
        simp [update, heq]
  | crash => exact le_rfl

omit [Fintype ι] in
theorem row_run (limit : ℕ) (s : AdmissionSystem ι) (events : List (AdmissionEvent ι)) :
    toLex s.row ≤ toLex (s.run limit events).row := by
  induction events generalizing s with
  | nil => exact le_rfl
  | cons event _ ih => exact (row_step limit s event).trans (ih _)

end AdmissionSystem

open AdmissionSystem in
/-- Under every interleaving of any number of processes, with arbitrary timestamps,
failures and crashes: at most `limit` calls of one minute return `Ok`, and the stored
pair never decreases. -/
theorem global_admission_bounded {ι : Type} [DecidableEq ι] [Fintype ι] (limit : ℕ) (row : ℕ × ℕ)
    (events : List (AdmissionEvent ι)) :
    (∀ minute, ((start row).run limit events).admittedIn minute ≤ limit) ∧
      ∀ earlier later, events = earlier ++ later →
        toLex ((start row).run limit earlier).row ≤ toLex ((start row).run limit events).row := by
  refine ⟨?_, ?_⟩
  · intro minute
    have hc := (covered_start limit row).run events
    exact (Nat.le_add_right _ _).trans (hc.limited minute)
  · rintro earlier later rfl
    rw [AdmissionSystem.run, AdmissionSystem.run, List.foldl_append]
    exact row_run limit _ later

/-- A second process is refused what the first has reserved, and a crash does not give
slots back. -/
example : (((AdmissionSystem.start (7, 0)).run 2 [.call 0 420000 none, .transaction 0 .committed,
    .call 1 420001 none, .transaction 1 .committed, .call 0 420002 none, .crash 0,
    .call 0 420003 none, .transaction 0 .committed] :
      AdmissionSystem (Fin 2)).admittedIn 7) = 2 := by
  decide

end Pigeonpost
