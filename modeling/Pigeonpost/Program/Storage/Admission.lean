import Pigeonpost.Program.Handle

/-! # Global binding admission (`pigeonpost-registry/src/storage.rs`)

One row, shared by all processes, counts the admissions of the current UTC minute.
A process reserves a batch of them in a transaction and spends the rest of the batch
after a plain read of the row. -/

namespace Pigeonpost

def globalBindingAdmissionBatchSize : ℕ := 64

/-- The `CHECK` of the `admissions` column. -/
def maxStoredAdmissions : ℕ := 1000000

structure GlobalBindingAdmissionLease where
  minute : ℕ
  limit : ℕ
  remaining : ℕ
  reservedThrough : ℕ

structure GlobalBindingAdmissionBatch where
  highestRequestedMinute : ℕ
  durableHighWater : Option (ℕ × ℕ)
  lease : Option GlobalBindingAdmissionLease

namespace GlobalBindingAdmissionBatch

/-- The batch of a new process. -/
def fresh : GlobalBindingAdmissionBatch := ⟨0, none, none⟩

/-- Moves the highest minute forward, which drops the lease. -/
def advance (batch : GlobalBindingAdmissionBatch) (minute : ℕ) : GlobalBindingAdmissionBatch :=
  if minute > batch.highestRequestedMinute then ⟨minute, batch.durableHighWater, none⟩ else batch

end GlobalBindingAdmissionBatch

/-- The order of the pairs (minute, admissions). -/
def admissionLt (left right : ℕ × ℕ) : Bool :=
  left.1 < right.1 || (left.1 = right.1 && left.2 < right.2)

/-- Compares an observed row with the newest one this process has seen. -/
def validateGlobalBindingObservation (batch : GlobalBindingAdmissionBatch) (observed : ℕ × ℕ) :
    GlobalBindingAdmissionBatch × Except RegistryError Unit :=
  if batch.durableHighWater.any fun highWater => admissionLt observed highWater then
    ({ batch with lease := none }, .error .registryUnavailable)
  else if batch.durableHighWater.all fun highWater => admissionLt highWater observed then
    ({ batch with durableHighWater := some observed }, .ok ())
  else (batch, .ok ())

def windowMinute (timestampMs : ℕ) : ℕ := timestampMs / 60000

def leaseIsUsable (minute limit : ℕ) (lease : GlobalBindingAdmissionLease) : Bool :=
  lease.minute = minute && lease.limit = limit && lease.remaining > 0

/-- The part of `charge_global_binding_admission` before its transaction, given what
the plain read of the row returns. Without a result the call goes on to refill. -/
def spendGlobalBindingAdmission (read : Except RegistryError (ℕ × ℕ))
    (batch : GlobalBindingAdmissionBatch) (timestampMs limit : ℕ) :
    GlobalBindingAdmissionBatch × Option (Except RegistryError Unit) :=
  let minute := windowMinute timestampMs
  if limit = 0 then
    (batch, some (.error (.invalidConfiguration
      "global binding admission limit must not be zero")))
  else if minute < batch.highestRequestedMinute then
    (batch, some (.error .registryUnavailable))
  else
    let batch := batch.advance minute
    match read with
    | .error e => (batch, some (.error e))
    | .ok observed =>
      match validateGlobalBindingObservation batch observed with
      | (batch, .error e) => (batch, some (.error e))
      | (batch, .ok ()) =>
        let batch := batch.advance observed.1
        if minute < observed.1 then (batch, some (.error .registryUnavailable))
        else
          match batch.lease.filter (leaseIsUsable minute limit) with
          | none => ({ batch with lease := none }, none)
          | some lease =>
            if observed.1 ≠ minute ∨ observed.2 < lease.reservedThrough then
              ({ batch with lease := none }, some (.error .registryUnavailable))
            else
              ({ batch with lease := some { lease with remaining := lease.remaining - 1 } },
                some (.ok ()))

/-- The checks inside the transaction: how many admissions to reserve, and the count
to store. -/
def planReservation (stored : ℕ × ℕ) (batch : GlobalBindingAdmissionBatch)
    (minute limit : ℕ) : GlobalBindingAdmissionBatch × Except RegistryError (ℕ × ℕ) :=
  match validateGlobalBindingObservation batch stored with
  | (batch, .error e) => (batch, .error e)
  | (batch, .ok ()) =>
    if minute < stored.1 then
      ({ batch with highestRequestedMinute := stored.1 }, .error .registryUnavailable)
    else
      let admitted := if minute > stored.1 then 0 else stored.2
      if limit ≤ admitted then (batch, .error .rateLimited)
      else
        let reserved := min (limit - admitted) globalBindingAdmissionBatchSize
        let next := admitted + reserved
        if next ≥ 2 ^ 32 then
          (batch, .error (.corruptStorage "global binding admission count overflowed"))
        else if next > maxStoredAdmissions then
          (batch, .error (.storage "CHECK constraint failed: admissions"))
        else (batch, .ok (reserved, next))

/-- How a transaction ends: it cannot begin, it commits, it fails and is rolled back,
or it commits and the call still reports a failure. -/
inductive TransactionOutcome where
  | busy (e : RegistryError)
  | committed
  | rolledBack (e : RegistryError)
  | unreported (e : RegistryError)

/-- The transaction of `charge_global_binding_admission`: the row it leaves, the batch
and the result of the call. -/
def refillGlobalBindingAdmission (outcome : TransactionOutcome) (stored : ℕ × ℕ)
    (batch : GlobalBindingAdmissionBatch) (timestampMs limit : ℕ) :
    (ℕ × ℕ) × GlobalBindingAdmissionBatch × Except RegistryError Unit :=
  let minute := windowMinute timestampMs
  match outcome with
  | .busy e => (stored, batch, .error e)
  | outcome =>
    match planReservation stored batch minute limit with
    | (batch, .error e) => (stored, batch, .error e)
    | (batch, .ok (reserved, next)) =>
      match outcome with
      | .busy e | .rolledBack e => (stored, batch, .error e)
      | .unreported e => ((minute, next), batch, .error e)
      | .committed =>
        ((minute, next),
          { batch with
            lease := some ⟨minute, limit, reserved - 1, next⟩
            durableHighWater := some (minute, next) },
          .ok ())

end Pigeonpost
