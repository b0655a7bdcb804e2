import Pigeonpost.Library.ByteString
import Pigeonpost.Library.Watch

/-! # The shell tunnel broker (`pigeonpost-tunnel/src/lib.rs`)

Two legs of a session are spliced; a heartbeat ends what the postbox no longer authorizes
and what has timed out. The tasks of the broker take their steps in any order: between two
steps of one of them, the others may take any number of theirs. -/

namespace Pigeonpost.Tunnel

inductive Side where
  | client
  | agent
deriving DecidableEq

def Side.name : Side → String
  | .client => "client"
  | .agent => "agent"

/-! ## Sessions -/

/-- The number of messages a leg's queue takes. -/
def queueBound : ℕ := 64

/-- A leg stands for the sender of its queue. -/
structure Session where
  id : String
  endsBy : UInt64
  connectBy : UInt64
  idle : ℕ
  client : Option ℕ
  agent : Option ℕ
  both : Watch Bool
  kill : Watch (Option String)
  bytesClient : UInt64
  bytesAgent : UInt64
  lastActivity : ℕ
  reported : Bool

namespace Session

def new (id : String) (endsBy connectBy : UInt64) (idle now : ℕ) : Session where
  id := id
  endsBy := endsBy
  connectBy := connectBy
  idle := idle
  client := none
  agent := none
  both := .new false
  kill := .new none
  bytesClient := 0
  bytesAgent := 0
  lastActivity := now
  reported := false

variable (session : Session)

/-- Only the first reason counts. -/
def killWith (reason : String) : Session :=
  { session with kill := session.kill.setOnce reason }

def killed : Bool := session.kill.value.isSome

def spliced : Bool := session.both.value

def touch (now : ℕ) : Session := { session with lastActivity := now }

def slot : Side → Option ℕ
  | .client => session.client
  | .agent => session.agent

def peer : Side → Option ℕ
  | .client => session.agent
  | .agent => session.client

def count (side : Side) (length : ℕ) : Session :=
  match side with
  | .client => { session with bytesClient := session.bytesClient + UInt64.ofNat length }
  | .agent => { session with bytesAgent := session.bytesAgent + UInt64.ofNat length }

/-- Takes a side's slot and tells everybody when both are taken. -/
def take (side : Side) (leg : ℕ) : Session :=
  let taken := match side with
    | .client => { session with client := some leg }
    | .agent => { session with agent := some leg }
  if taken.client.isSome ∧ taken.agent.isSome then { taken with both := taken.both.send true }
  else taken

end Session

/-! ## Legs -/

/-- The receivers of a leg that waits for the other side. -/
structure Waiting where
  both : ℕ
  kill : ℕ

/-- Where a leg's task is. -/
inductive LegPhase where
  | connected
  | admitted (sid : String) (side : Side) (endsBy connectBy : UInt64) (idle : ℕ)
  | joined
  | subscribedBoth (both : ℕ)
  /-- At the top of the loop that waits for the other side. -/
  | checkingBoth (waiting : Waiting)
  | checkingKill (waiting : Waiting)
  | selecting (waiting : Waiting)
  | unmet
  | met
  | touched
  | spawningWriter (peer : ℕ)
  | subscribingReader (peer : ℕ)
  /-- In the forwarding loop, with the message it is handing to the other side's queue. -/
  | forwarding (peer kill : ℕ) (sending : Option Bytes)
  | finishing (reason : String)
  | removing
  | reporting
  | done
deriving Inhabited

/-- Where the task that writes to a leg's socket is. -/
inductive WriterPhase where
  | unspawned
  | running (kill : ℕ)
  | closing
  | ended

structure Leg where
  side : Side
  session : ℕ
  phase : LegPhase
  writer : WriterPhase
  queue : List Bytes

namespace Leg

def new : Leg := ⟨.client, 0, .connected, .unspawned, []⟩

/-- Whether the receiving end of the leg's queue still exists. -/
def receiving (leg : Leg) : Bool :=
  match leg.writer, leg.phase with
  | .ended, _ => false
  | .unspawned, .done => false
  | _, _ => true

/-- The kill receiver of a leg in its forwarding loop. -/
def reader (leg : Leg) : Option ℕ :=
  match leg.phase with
  | .forwarding _ kill _ => some kill
  | _ => none

/-- The kill receiver of a leg's writer in its loop. -/
def writing (leg : Leg) : Option ℕ :=
  match leg.writer with
  | .running kill => some kill
  | _ => none

end Leg

/-- What a leg's task finds when it goes on: nothing in particular, or something that its
socket, its timer, the postbox or a channel has for it. -/
inductive LegInput where
  | proceed
  | refused
  | admitted (sid : String) (side : Side) (endsBy connectBy : UInt64) (idleSecs : ℕ)
  | bothChanged
  | killChanged
  | timeout
  | binary (bytes : Bytes)
  | control
  | text
  | hangup
  | failed

inductive WriterInput where
  | message (sent : Bool)
  | ping (sent : Bool)
  | killChanged
  | proceed

/-! ## The heartbeat -/

inductive HeartbeatPhase where
  | resting
  | checking (now : UInt64) (rest live : List ℕ)
  | asking (live : List ℕ)
  | ending (rest : List (String × String))
  | failing (rest : List ℕ)

inductive HeartbeatInput where
  | tick (now : UInt64)
  | proceed
  /-- The postbox answered with the sessions to end and why. -/
  | answered (ends : List (String × String))
  | unanswered

/-! ## The broker -/

structure Config where
  idle : ℕ
  failClosedAfter : ℕ

structure Broker where
  cfg : Config
  sessions : ℕ → Session
  /-- The place of the next session. -/
  next : ℕ
  /-- The sessions a leg can join, by their identifiers. -/
  entries : List (String × ℕ)
  legs : ℕ → Leg
  lastOk : ℕ
  heartbeat : HeartbeatPhase
  /-- The monotonic clock. -/
  instant : ℕ

namespace Broker

def new (cfg : Config) : Broker where
  cfg := cfg
  sessions _ := .new "" 0 0 0 0
  next := 0
  entries := []
  legs _ := .new
  lastOk := 0
  heartbeat := .resting
  instant := 0

variable (b : Broker)

def updateSession (place : ℕ) (f : Session → Session) : Broker :=
  { b with sessions := Function.update b.sessions place (f (b.sessions place)) }

def setLeg (n : ℕ) (leg : Leg) : Broker :=
  { b with legs := Function.update b.legs n leg }

def setPhase (n : ℕ) (phase : LegPhase) : Broker :=
  b.setLeg n { b.legs n with phase }

def setWriter (n : ℕ) (writer : WriterPhase) : Broker :=
  b.setLeg n { b.legs n with writer }

def sessionOf (n : ℕ) : Session := b.sessions (b.legs n).session

/-- Finds the session of an identifier, or makes it. -/
def enter (sid : String) (endsBy connectBy : UInt64) (idle : ℕ) : Broker × ℕ :=
  match b.entries.lookup sid with
  | some place => (b, place)
  | none =>
    ({ b with
      sessions := Function.update b.sessions b.next (.new sid endsBy connectBy idle b.instant)
      next := b.next + 1
      entries := (sid, b.next) :: b.entries }, b.next)

/-- Joins or creates the session and takes the slot, under the locks of both. -/
def join (n : ℕ) (sid : String) (side : Side) (endsBy connectBy : UInt64) (idle : ℕ) : Broker :=
  let entered := b.enter sid endsBy connectBy idle
  if ((entered.1.sessions entered.2).slot side).isSome then entered.1.setPhase n .done
  else
    (entered.1.updateSession entered.2 fun session => session.take side n).setLeg n
      { b.legs n with side, session := entered.2, phase := .joined }

def legStep (n : ℕ) (input : LegInput) : Broker :=
  let leg := b.legs n
  let session := b.sessionOf n
  match leg.phase, input with
  | .connected, .refused => b.setPhase n .done
  | .connected, .admitted sid side endsBy connectBy idleSecs =>
    b.setPhase n (.admitted sid side endsBy connectBy (min idleSecs b.cfg.idle))
  | .admitted sid side endsBy connectBy idle, .proceed => b.join n sid side endsBy connectBy idle
  | .joined, .proceed => b.setPhase n (.subscribedBoth session.both.subscribe)
  | .subscribedBoth both, .proceed => b.setPhase n (.checkingBoth ⟨both, session.kill.subscribe⟩)
  -- both sides being there counts before a reason to end
  | .checkingBoth waiting, .proceed =>
    if session.both.value then b.setPhase n .met
    else b.setPhase n (.checkingKill { waiting with both := session.both.version })
  | .checkingKill waiting, .proceed =>
    if session.killed then b.setPhase n .unmet
    else b.setPhase n (.selecting { waiting with kill := session.kill.version })
  | .selecting waiting, .bothChanged =>
    if session.both.changed waiting.both then
      b.setPhase n (.checkingBoth { waiting with both := session.both.version })
    else b
  | .selecting waiting, .killChanged =>
    if session.kill.changed waiting.kill then
      b.setPhase n (.checkingBoth { waiting with kill := session.kill.version })
    else b
  | .selecting _, .timeout => b.setPhase n .unmet
  | .unmet, .proceed =>
    b.setPhase n (.finishing (session.kill.value.getD "connect_timeout"))
  | .met, .proceed =>
    (b.updateSession leg.session fun session => session.touch b.instant).setPhase n .touched
  | .touched, .proceed =>
    match session.peer leg.side with
    | none => b.setPhase n (.finishing "peer_missing")
    | some peer => b.setPhase n (.spawningWriter peer)
  | .spawningWriter peer, .proceed =>
    b.setLeg n { leg with
      phase := .subscribingReader peer
      writer := .running session.kill.subscribe }
  | .subscribingReader peer, .proceed =>
    b.setPhase n (.forwarding peer session.kill.subscribe none)
  | .forwarding peer kill none, .binary bytes =>
    (b.updateSession leg.session fun session =>
      (session.count leg.side bytes.length).touch b.instant).setPhase n
        (.forwarding peer kill (some bytes))
  | .forwarding _ _ none, .text =>
    b.setPhase n (.finishing (leg.side.name ++ "_protocol_violation"))
  | .forwarding _ _ none, .hangup => b.setPhase n (.finishing (leg.side.name ++ "_hangup"))
  | .forwarding _ _ none, .failed => b.setPhase n (.finishing (leg.side.name ++ "_error"))
  | .forwarding _ kill none, .killChanged =>
    if session.kill.changed kill then
      b.setPhase n (.finishing (session.kill.value.getD "closed"))
    else b
  | .forwarding peer kill (some bytes), .proceed =>
    if !(b.legs peer).receiving then b.setPhase n (.finishing "peer_closed")
    else if (b.legs peer).queue.length < queueBound then
      (b.setLeg peer { b.legs peer with queue := (b.legs peer).queue ++ [bytes] }).setPhase n
        (.forwarding peer kill none)
    else b
  | .finishing reason, .proceed =>
    (b.updateSession leg.session fun session => session.killWith reason).setPhase n .removing
  | .removing, .proceed =>
    { b with
      entries := if b.entries.lookup session.id = some leg.session then
          b.entries.filter fun entry => entry.1 != session.id
        else b.entries }.setPhase n .reporting
  | .reporting, .proceed =>
    (b.updateSession leg.session fun session => { session with reported := true }).setPhase n .done
  | _, _ => b

def writerStep (n : ℕ) (input : WriterInput) : Broker :=
  let leg := b.legs n
  match leg.writer, input with
  | .running kill, .message sent =>
    match leg.queue with
    | [] => b
    | _ :: queue =>
      b.setLeg n { leg with queue, writer := if sent then .running kill else .closing }
  | .running _, .ping sent => if sent then b else b.setWriter n .closing
  | .running kill, .killChanged =>
    if (b.sessionOf n).kill.changed kill then b.setWriter n .closing else b
  | .closing, .proceed =>
    (b.updateSession leg.session fun session => session.killWith "writer_closed").setWriter n
      .ended
  | _, _ => b

/-- The reason that the heartbeat itself has to end a session. -/
def expiry (now : UInt64) (session : Session) : Option String :=
  if now ≥ session.endsBy then some "max_duration"
  else if !session.spliced ∧ now ≥ session.connectBy then some "connect_timeout"
  else if session.spliced ∧ b.instant - session.lastActivity ≥ session.idle then some "idle"
  else none

def heartbeatStep (input : HeartbeatInput) : Broker :=
  match b.heartbeat, input with
  | .resting, .tick now =>
    let live := b.entries.map Prod.snd
    { b with heartbeat := .checking now live live }
  | .checking now (place :: rest) live, .proceed =>
    let checked := match b.expiry now (b.sessions place) with
      | some reason => b.updateSession place fun session => session.killWith reason
      | none => b
    { checked with heartbeat := .checking now rest live }
  | .checking _ [] live, .proceed => { b with heartbeat := .asking live }
  | .asking _, .answered ends => { b with lastOk := b.instant, heartbeat := .ending ends }
  | .asking live, .unanswered =>
    { b with
      heartbeat := if b.instant - b.lastOk ≥ b.cfg.failClosedAfter then .failing live
        else .resting }
  | .ending ((sid, reason) :: rest), .proceed =>
    let ended := match b.entries.lookup sid with
      | some place => b.updateSession place fun session => session.killWith ("revoked:" ++ reason)
      | none => b
    { ended with heartbeat := .ending rest }
  | .ending [], .proceed => { b with heartbeat := .resting }
  | .failing (place :: rest), .proceed =>
    { b.updateSession place fun session => session.killWith "postbox_unreachable" with
      heartbeat := .failing rest }
  | .failing [], .proceed => { b with heartbeat := .resting }
  | _, _ => b

inductive Event where
  | leg (n : ℕ) (input : LegInput)
  | writer (n : ℕ) (input : WriterInput)
  | heartbeat (input : HeartbeatInput)
  | time (elapsed : ℕ)

def step : Event → Broker
  | .leg n input => b.legStep n input
  | .writer n input => b.writerStep n input
  | .heartbeat input => b.heartbeatStep input
  | .time elapsed => { b with instant := b.instant + elapsed }

def run (events : List Event) : Broker := events.foldl step b

end Broker

end Pigeonpost.Tunnel
