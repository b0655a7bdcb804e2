import Pigeonpost.Library.Hex
import Pigeonpost.Library.KeyedTable
import Pigeonpost.Library.Machine

/-! # Creating and starting Nests (`pigeonpost-nests/src/control.rs`)

An operation holds the lock of its own Nest only: between two of its database calls those on
other Nests may take any number of steps. Nobody else touches its row meanwhile, so a call
about that row is one step with the call before it. -/

namespace Pigeonpost.Nests

structure ApiError where
  status : ℕ
  code : String
  detail : String

def ApiError.internal (detail : String) : ApiError := ⟨500, "internal", detail⟩

/-- The text of an id, which is ASCII where an error quotes it. -/
def text (id : Bytes) : String := String.ofList (id.map fun b => Char.ofNat b.toNat)

inductive NestState where
  | provisioning | running | paused | stopped | failed | deleting | deleted
deriving DecidableEq

/-- The columns that an operation reads. -/
structure Nest where
  id : Bytes
  accountId : Bytes
  address : Bytes
  state : NestState
  quotaGib : ℕ

structure Config where
  defaultGib : ℕ
  maxTotalGib : ℕ
  maxRunning : ℕ

/-! ## Requests -/

structure CreateNest where
  nestId : Bytes
  accountId : Bytes
  address : Bytes
  label : List Char
  enrollmentCode : Bytes
  /-- Input and output tokens. -/
  budgets : Option (ℤ × ℤ)
  quotaGib : Option ℕ

def validNestId (id : Bytes) : Bool :=
  (ascii "nst_").isPrefixOf id && 16 ≤ (id.drop 4).length && (id.drop 4).length ≤ 64 &&
    (id.drop 4).all isLowerHex

def validCode (code : Bytes) : Bool :=
  (ascii "nenr_").isPrefixOf code && 32 ≤ (code.drop 5).length && (code.drop 5).length ≤ 128 &&
    (code.drop 5).all isAsciiHexdigit

variable (cfg : Config)

namespace CreateNest

def validate (req : CreateNest) : Except ApiError Unit :=
  if !validNestId req.nestId then .error ⟨400, "bad_nest_id", "nest_id"⟩
  else if req.label.isEmpty ∨ req.label.length > 64 then
    .error ⟨400, "bad_label", "1–64 characters"⟩
  else if req.accountId.isEmpty ∨ req.accountId.length > 128 then
    .error ⟨400, "bad_account", "account_id"⟩
  else if req.address.head? ≠ some 0x2f ∨ req.address.length > 256 then
    .error ⟨400, "bad_address", "address"⟩
  else if !validCode req.enrollmentCode then .error ⟨400, "bad_code", "enrollment_code"⟩
  else .ok ()

def gib (req : CreateNest) : ℕ := max 1 (min 64 (req.quotaGib.getD cfg.defaultGib))

def limits (req : CreateNest) : ℤ × ℤ := req.budgets.getD (1000000, 100000)

/-- The row `insert_nest` writes. -/
def row (req : CreateNest) : Nest :=
  ⟨req.nestId, req.accountId, req.address, .provisioning, req.gib cfg⟩

end CreateNest

/-! ## The host -/

/-- An operation that holds the lock of its Nest, between two steps. -/
inductive Task where
  /-- `create` found room for the volume. -/
  | insert (req : CreateNest)
  /-- `create` is making the volume. -/
  | provision
  /-- `start_locked` found a slot and is starting the sandbox. -/
  | boot

structure Host where
  nests : KeyedTable Nest.id
  /-- The operation that holds the lock of each Nest. -/
  tasks : Bytes → Option Task

def Nest.isResident (nest : Nest) : Bool := nest.state = .running ∨ nest.state = .paused

def Nest.share (nest : Nest) : ℕ := if nest.state = .deleted then 0 else nest.quotaGib

/-- What an operation answers, with the Nest's row for its status. -/
abbrev Reply := Bytes × Except ApiError (Option Nest)

namespace Host

def setState (h : Host) (id : Bytes) (state : NestState) : Host :=
  { h with nests := h.nests.modify id (fun nest => { nest with state }) fun _ => rfl }

/-- The operation gives its lock back. -/
def reply (h : Host) (id : Bytes) (result : Except ApiError Unit) : Host × List Reply :=
  ({ h with tasks := Function.update h.tasks id none },
    [(id, result.map fun _ => h.nests.lookup id)])

def create (h : Host) (req : CreateNest) : Host × List Reply :=
  match req.validate, h.nests.lookup req.nestId with
  | .error e, _ => h.reply req.nestId (.error e)
  | .ok (), some existing =>
    if existing.accountId = req.accountId ∧ existing.address = req.address then
      h.reply req.nestId (.ok ())
    else h.reply req.nestId (.error ⟨409, "nest_exists", "different owner"⟩)
  | .ok (), none =>
    if h.nests.total Nest.share + req.gib cfg > cfg.maxTotalGib then
      h.reply req.nestId
        (.error ⟨507, "no_storage", "this host has no room for another Nest volume"⟩)
    else if req.limits.1 < 0 ∨ req.limits.2 < 0 then
      h.reply req.nestId (.error ⟨400, "bad_budget", "negative"⟩)
    else ({ h with tasks := Function.update h.tasks req.nestId (some (.insert req)) }, [])

/-- The Nests that keep another one from starting. -/
def residentBeside (h : Host) (id : Bytes) : ℕ :=
  h.nests.count fun nest => nest.id ≠ id && nest.isResident

/-- `start_locked` until the sandbox starts. Another worker may hold the lease. -/
def startLocked (h : Host) (id : Bytes) (creating leased : Bool) : Host × List Reply :=
  match h.nests.lookup id with
  | none => h.reply id (.error ⟨404, "no_nest", text id⟩)
  | some nest =>
    if nest.state = .deleted ∨ nest.state = .deleting then
      h.reply id (.error ⟨410, "deleted", text id⟩)
    else if h.residentBeside id ≥ cfg.maxRunning then
      -- a created Nest is wanted running: reconciliation starts it when a slot frees up
      (if creating then h.setState id .stopped else h).reply id
        (.error ⟨503, "at_capacity", "this host is running its maximum number of Nests"⟩)
    else if leased then h.reply id (.error ⟨409, "leased", "another worker holds this Nest"⟩)
    else
      ({ h with tasks := Function.update h.tasks id (some .boot) }, [])

/-- `action` with `start`, on a sandbox that runs or does not. -/
def start (h : Host) (id : Bytes) (running leased : Bool) : Host × List Reply :=
  if !validNestId id then h.reply id (.error ⟨400, "bad_nest_id", "nest_id"⟩)
  else
    match h.nests.lookup id with
    | none => h.reply id (.error ⟨404, "no_nest", text id⟩)
    | some nest =>
      if nest.state = .deleted ∨ nest.state = .deleting then
        h.reply id (.error ⟨410, "deleted", text id⟩)
      else if running then h.reply id (.ok ())
      else h.startLocked cfg id false leased

/-- The next step of the operation that holds the lock, whose volume or sandbox came up or
did not. -/
def advance (h : Host) (id : Bytes) (outcome : Except String Unit) (leased : Bool) :
    Host × List Reply :=
  match h.tasks id, outcome with
  | none, _ => (h, [])
  | some (.insert req), _ =>
    match h.nests.insert (req.row cfg) with
    | none => h.reply id (.error (.internal "insert"))
    | some nests => (⟨nests, Function.update h.tasks id (some .provision)⟩, [])
  | some .provision, .ok () => h.startLocked cfg id true leased
  | some .provision, .error e =>
    (h.setState id .failed).reply id (.error (.internal ("provision: " ++ e)))
  | some .boot, .ok () => (h.setState id .running).reply id (.ok ())
  | some .boot, .error e =>
    (h.setState id .failed).reply id (.error (.internal ("start: " ++ e)))

end Host

inductive Event where
  | create (req : CreateNest)
  | start (id : Bytes) (running leased : Bool)
  | advance (id : Bytes) (outcome : Except String Unit) (leased : Bool)

/-- An operation on a Nest whose lock is held waits. -/
def step (h : Host) : Event → Host × List Reply
  | .create req => if (h.tasks req.nestId).isSome then (h, []) else h.create cfg req
  | .start id running leased =>
    if (h.tasks id).isSome then (h, []) else h.start cfg id running leased
  | .advance id outcome leased => h.advance cfg id outcome leased

def run (cfg : Config) (h : Host) (events : List Event) : Host × List Reply :=
  Machine.run (step cfg) h events

end Pigeonpost.Nests
