import Pigeonpost.Program.Tunnel
import Mathlib.Data.List.Induction

/-! # Killed sessions

A leg learns that its session was killed through the receivers of its forwarding loop. It
does so exactly when it subscribed them before the kill. -/

namespace Pigeonpost.Tunnel.Broker

open List Function

/-- The leg is in a forwarding loop, that of its reader or that of its writer, with a kill
receiver that has seen `kill`. -/
def Listens (leg : Leg) (kill : ℕ) : Prop := leg.reader = some kill ∨ leg.writing = some kill

/-- No leg of a killed session is in a forwarding loop without a notification to come. -/
def Safe (b : Broker) : Prop :=
  ∀ n kill, (b.sessionOf n).killed = true → Listens (b.legs n) kill →
    (b.sessionOf n).kill.changed kill = true

/-- The event makes a leg subscribe a receiver of its forwarding loops. -/
def Subscribes (b : Broker) (n : ℕ) (event : Event) : Prop :=
  event = .leg n .proceed ∧ ∃ peer, (b.legs n).phase = .spawningWriter peer ∨
    (b.legs n).phase = .subscribingReader peer

/-! ## What a step changes -/

section Frames

variable (b : Broker) (n m place other : ℕ) (leg : Leg)

@[simp] theorem legs_setLeg : (b.setLeg n leg).legs m = if m = n then leg else b.legs m := by
  simp only [setLeg, update_apply]

@[simp] theorem sessions_setLeg : (b.setLeg n leg).sessions = b.sessions := rfl

@[simp] theorem sessions_setPhase (phase : LegPhase) :
    (b.setPhase n phase).sessions = b.sessions := rfl

@[simp] theorem sessions_updateSession (f : Session → Session) :
    (b.updateSession place f).sessions other =
      if other = place then f (b.sessions place) else b.sessions other := by
  simp only [updateSession, update_apply]

@[simp] theorem kill_take (session : Session) (side : Side) :
    (session.take side n).kill = session.kill := by
  cases side <;> simp only [Session.take] <;> split <;> rfl

@[simp] theorem kill_count (session : Session) (side : Side) (length : ℕ) :
    (session.count side length).kill = session.kill := by
  cases side <;> rfl

@[simp] theorem legs_setPhase (phase : LegPhase) :
    (b.setPhase n phase).legs m = if m = n then { b.legs n with phase } else b.legs m := by
  simp only [setPhase, legs_setLeg]

@[simp] theorem legs_enter (sid : String) (endsBy connectBy : UInt64) (idle : ℕ) :
    (b.enter sid endsBy connectBy idle).1.legs = b.legs := by
  unfold enter
  split <;> rfl

end Frames

variable {b : Broker} {event : Event}

/-- What can happen to the kill channel at a session's place. -/
inductive KillStep (before after : Watch (Option String)) : Prop where
  | same (h : after = before)
  | set (reason : String) (h : after = before.setOnce reason)
  | fresh (h : after = .new none)

theorem KillStep.setOnce {before after : Watch (Option String)} (h : KillStep before after)
    (hb : before.SetOnce) : after.SetOnce := by
  cases h with
  | same h => exact h ▸ hb
  | set reason h => exact h ▸ hb.setOnce reason
  | fresh h => exact h ▸ Watch.setOnce_new

variable {f : Session → Session}

theorem killStep_updateSession (b : Broker) (place other : ℕ)
    (h : ∀ session, KillStep session.kill (f session).kill) :
    KillStep (b.sessions other).kill ((b.updateSession place f).sessions other).kill := by
  rw [sessions_updateSession]
  split
  · rename_i heq
    exact heq ▸ h _
  · exact .same rfl

theorem killStep_killWith (b : Broker) (place other : ℕ) (reason : String) :
    KillStep (b.sessions other).kill
      ((b.updateSession place fun session => session.killWith reason).sessions other).kill :=
  killStep_updateSession b place other fun _ => .set reason rfl

theorem killStep_join (b : Broker) (n place : ℕ) (sid : String) (side : Side)
    (endsBy connectBy : UInt64) (idle : ℕ) :
    KillStep (b.sessions place).kill
      ((b.join n sid side endsBy connectBy idle).sessions place).kill := by
  have he : KillStep (b.sessions place).kill
      ((b.enter sid endsBy connectBy idle).1.sessions place).kill := by
    unfold enter
    split
    · exact .same rfl
    simp only [update_apply]
    split
    · exact .fresh rfl
    · exact .same rfl
  unfold join
  dsimp only
  split
  · exact he
  rw [sessions_setLeg, sessions_updateSession]
  split
  · rename_i heq
    subst heq
    rw [kill_take]
    exact he
  · exact he

/-- Everything else a leg does to its session leaves the channel alone. -/
theorem killStep_of_same (b : Broker) (n place other : ℕ) (phase : LegPhase)
    (h : ∀ session, (f session).kill = session.kill) :
    KillStep (b.sessions other).kill
      (((b.updateSession place f).setPhase n phase).sessions other).kill :=
  killStep_updateSession b place other fun session => .same (h session)

theorem killStep_legStep (b : Broker) (n place : ℕ) (input : LegInput) :
    KillStep (b.sessions place).kill ((b.legStep n input).sessions place).kill := by
  unfold legStep
  dsimp only
  split
  case h_3 => exact killStep_join ..
  case h_12 => exact killStep_of_same _ _ _ _ _ fun _ => rfl
  case h_16 => exact killStep_of_same _ _ _ _ _ fun session => by simp [Session.touch]
  case h_22 => exact killStep_killWith ..
  case h_24 => exact killStep_of_same _ _ _ _ _ fun _ => rfl
  -- the other steps change no session
  all_goals first
    | exact .same rfl
    | (split <;> first
      | exact .same rfl
      | (split <;> exact .same rfl))

theorem killStep_writerStep (b : Broker) (n place : ℕ) (input : WriterInput) :
    KillStep (b.sessions place).kill ((b.writerStep n input).sessions place).kill := by
  unfold writerStep
  dsimp only
  split
  · split <;> exact .same rfl
  · split <;> exact .same rfl
  · split <;> exact .same rfl
  · exact killStep_killWith ..
  · exact .same rfl

theorem killStep_heartbeatStep (b : Broker) (place : ℕ) (input : HeartbeatInput) :
    KillStep (b.sessions place).kill ((b.heartbeatStep input).sessions place).kill := by
  unfold heartbeatStep
  split
  · exact .same rfl
  · split
    · exact killStep_killWith ..
    · exact .same rfl
  · exact .same rfl
  · exact .same rfl
  · exact .same rfl
  · split
    · exact killStep_killWith ..
    · exact .same rfl
  · exact .same rfl
  · exact killStep_killWith ..
  · exact .same rfl
  · exact .same rfl

theorem killStep_step (b : Broker) (event : Event) (place : ℕ) :
    KillStep (b.sessions place).kill ((b.step event).sessions place).kill := by
  cases event with
  | leg n input => exact killStep_legStep b n place input
  | writer n input => exact killStep_writerStep b n place input
  | heartbeat input => exact killStep_heartbeatStep b place input
  | time => exact .same rfl

/-! ## What a leg is subscribed to -/

/-- A leg whose phase is outside the forwarding loop listens through its writer only. -/
theorem listens_of_phase {leg : Leg} {phase : LegPhase} {kill : ℕ}
    (hp : ({ leg with phase } : Leg).reader = none)
    (h : Listens { leg with phase } kill) : Listens leg kill := by
  rcases h with h | h
  · rw [hp] at h
    cases h
  · exact .inr h

/-- What a leg that listens after a step had before it. -/
def Heard (b after : Broker) (event : Event) : Prop :=
  ∀ m kill, Listens (after.legs m) kill →
    Listens (b.legs m) kill ∨ (b.Subscribes m event ∧ kill = (b.sessionOf m).kill.subscribe)

theorem heard_of_legs_eq {after : Broker} (h : after.legs = b.legs) :
    Heard b after event := fun m kill hl => .inl (by rwa [h] at hl)

/-- A step that replaces one leg has to answer for that leg only. -/
theorem heard_setLeg {c : Broker} {n : ℕ} {leg : Leg} (hc : Heard b c event)
    (h : ∀ kill, Listens leg kill → Listens (b.legs n) kill ∨
    (b.Subscribes n event ∧ kill = (b.sessionOf n).kill.subscribe)) :
    Heard b (c.setLeg n leg) event := by
  intro m kill hl
  rw [legs_setLeg] at hl
  split at hl
  · rename_i heq
    exact heq ▸ h kill hl
  · exact hc m kill hl

theorem heard_setPhase {c : Broker} {n : ℕ} {phase : LegPhase} (hc : c.legs = b.legs)
    (hp : ({ b.legs n with phase } : Leg).reader = none) : Heard b (c.setPhase n phase) event := by
  unfold setPhase
  rw [hc]
  exact heard_setLeg (heard_of_legs_eq hc) fun kill h => .inl (listens_of_phase hp h)

theorem heard_join (b : Broker) (event : Event) (n : ℕ) (sid : String) (side : Side)
    (endsBy connectBy : UInt64) (idle : ℕ) :
    Heard b (b.join n sid side endsBy connectBy idle) event := by
  unfold join
  dsimp only
  split
  · exact heard_setPhase (legs_enter ..) rfl
  · have hl : ∀ f, ((b.enter sid endsBy connectBy idle).1.updateSession
        (b.enter sid endsBy connectBy idle).2 f).legs = b.legs := fun f => legs_enter ..
    refine heard_setLeg (heard_of_legs_eq (hl _)) fun kill h => .inl ?_
    rcases h with h | h
    · cases h
    · exact .inr h

theorem heard_legStep (b : Broker) (n : ℕ) (input : LegInput) :
    Heard b (b.legStep n input) (.leg n input) := by
  unfold legStep
  dsimp only
  split
  case h_3 => exact heard_join _ _ _ _ _ _ _ _
  case h_14 peer hp =>
    refine heard_setLeg (heard_of_legs_eq rfl) fun kill h => ?_
    rcases h with h | h
    · cases h
    · exact .inr ⟨⟨rfl, peer, .inl hp⟩, (Option.some.inj h).symm⟩
  case h_15 peer hp =>
    refine heard_setLeg (heard_of_legs_eq rfl) fun kill h => ?_
    rcases h with h | h
    · exact .inr ⟨⟨rfl, peer, .inr hp⟩, (Option.some.inj h).symm⟩
    · exact .inl (.inr h)
  case h_16 peer kill bytes hp =>
    refine heard_setLeg (heard_of_legs_eq rfl) fun kill h => .inl (h.imp_left fun h => ?_)
    simpa only [Leg.reader, hp] using h
  case h_21 peer kill bytes hp =>
    split
    · exact heard_setPhase rfl rfl
    · split
      · -- the other leg's queue grows, which it may be itself
        have hq : ∀ m queue kill, Listens { b.legs m with queue } kill →
            Listens (b.legs m) kill := fun m queue kill h => h
        refine heard_setLeg (heard_setLeg (heard_of_legs_eq rfl) fun kill h =>
          .inl (hq peer _ kill h)) fun kill h => .inl ?_
        rcases h with h | h
        · exact .inl (by simpa only [Leg.reader, hp] using h)
        · refine .inr ?_
          rw [legs_setLeg] at h
          split at h
          · rename_i heq
            exact heq ▸ h
          · exact h
      · exact heard_of_legs_eq rfl
  all_goals first
    | exact heard_setPhase rfl rfl
    | exact heard_of_legs_eq rfl
    | (split <;> first
      | exact heard_setPhase rfl rfl
      | exact heard_of_legs_eq rfl)

theorem heard_writerStep (b : Broker) (n : ℕ) (input : WriterInput) :
    Heard b (b.writerStep n input) (.writer n input) := by
  -- a writer that does not run any more does not listen
  have hclo : ∀ c : Broker, c.legs = b.legs → ∀ writer,
      ({ b.legs n with writer } : Leg).writing = none →
      Heard b (c.setWriter n writer) (.writer n input) := by
    intro c hc writer hw
    unfold setWriter
    rw [hc]
    refine heard_setLeg (heard_of_legs_eq hc) fun kill h => .inl ?_
    rcases h with h | h
    · exact .inl h
    · rw [hw] at h
      cases h
  unfold writerStep
  dsimp only
  split
  case h_1 kill sent hw =>
    split
    · exact heard_of_legs_eq rfl
    refine heard_setLeg (heard_of_legs_eq rfl) fun kill h => .inl (h.imp_right fun h => ?_)
    cases sent
    · cases h
    · simpa only [Leg.writing, hw, if_true] using h
  case h_2 =>
    split
    · exact heard_of_legs_eq rfl
    · exact hclo b rfl .closing rfl
  case h_3 =>
    split
    · exact hclo b rfl .closing rfl
    · exact heard_of_legs_eq rfl
  case h_4 => exact hclo _ rfl .ended rfl
  case h_5 => exact heard_of_legs_eq rfl

theorem legs_heartbeatStep (b : Broker) (input : HeartbeatInput) :
    (b.heartbeatStep input).legs = b.legs := by
  unfold heartbeatStep
  split <;> first
    | rfl
    | (split <;> rfl)

theorem heard_step (b : Broker) (event : Event) : Heard b (b.step event) event := by
  cases event with
  | leg n input => exact heard_legStep b n input
  | writer n input => exact heard_writerStep b n input
  | heartbeat input => exact heard_of_legs_eq (legs_heartbeatStep b input)
  | time => exact heard_of_legs_eq rfl

/-! ## Whole runs -/

/-- Every kill is signalled at most once, and every loop still waits for it. -/
structure Alert (b : Broker) : Prop where
  once : ∀ place, (b.sessions place).kill.SetOnce
  unseen : ∀ n kill, Listens (b.legs n) kill → kill = 0

theorem Alert.safe (h : b.Alert) : b.Safe := by
  intro n kill hk hl
  rw [h.unseen n kill hl]
  exact (h.once _).changed hk

theorem alert_new (cfg : Config) : (new cfg).Alert where
  once _ := Watch.setOnce_new
  unseen n kill h := by rcases h with h | h <;> cases h

/-- The legs that the event makes subscribe do so before their session is killed. -/
def SubscribesInTime (b : Broker) (event : Event) : Prop :=
  ∀ n, b.Subscribes n event → (b.sessionOf n).killed = false

theorem Alert.step (h : b.Alert) (ht : b.SubscribesInTime event) : (b.step event).Alert where
  once place := (killStep_step b event place).setOnce (h.once place)
  unseen n kill hl := by
    rcases heard_step b event n kill hl with hb | ⟨hs, hk⟩
    · exact h.unseen n kill hb
    · have hu : (b.sessionOf n).kill.value = none := by
        simpa only [Session.killed, Option.isSome_eq_false_iff, Option.isNone_iff_eq_none]
          using ht n hs
      rw [hk]
      exact (h.once _).subscribe hu

/-- A leg that subscribes to the kill channel of a killed session is never told. -/
theorem not_safe_of_subscribes {n : ℕ} (hsub : b.Subscribes n event)
    (hk : (b.sessionOf n).killed = true) : ¬ (b.step event).Safe := by
  intro hsafe
  obtain ⟨rfl, peer, hp⟩ := hsub
  -- the step changes neither the leg's session nor its channel
  have hs : (b.step (.leg n .proceed)).sessionOf n = b.sessionOf n := by
    rcases hp with hp | hp <;> simp [step, legStep, hp, sessionOf]
  have hl : Listens ((b.step (.leg n .proceed)).legs n) (b.sessionOf n).kill.subscribe := by
    rcases hp with hp | hp
    · exact .inr (by simp [step, legStep, hp, Leg.writing])
    · exact .inl (by simp [step, legStep, hp, Leg.reader])
  have hc := hsafe n _ (by rwa [hs]) hl
  rw [hs, Watch.changed_subscribe] at hc
  cases hc

/-- No state of a run has a leg in a forwarding loop of a killed session without a
notification to come exactly when the legs of the run subscribe in time. -/
theorem safe_run_iff (cfg : Config) (events : List Event) :
    (∀ past, past <+: events → ((new cfg).run past).Safe) ↔
      ∀ past event, past ++ [event] <+: events → ((new cfg).run past).SubscribesInTime event := by
  have hstep : ∀ past event, (new cfg).run (past ++ [event]) = ((new cfg).run past).step event :=
    fun past event => foldl_concat ..
  constructor
  · intro hsafe past event hp n hs
    by_contra hk
    rw [Bool.not_eq_false] at hk
    exact not_safe_of_subscribes hs hk (hstep past event ▸ hsafe _ hp)
  · intro ht past hp
    -- the run is extended one event at a time
    have ha : ((new cfg).run past).Alert := by
      induction past using reverseRecOn with
      | nil => exact alert_new cfg
      | append_singleton past event ih =>
        rw [hstep]
        exact (ih ((prefix_append past [event]).trans hp)).step (ht past event hp)
    exact ha.safe

def sampleSession : String := "ssh_abcdefghijklmnopqrstuvwxyz"

def splicedRun : List Event :=
  [.leg 0 (.admitted sampleSession .client 100 100 60), .leg 0 .proceed,
    .leg 1 (.admitted sampleSession .agent 100 100 60), .leg 1 .proceed,
    .leg 0 .proceed, .leg 0 .proceed, .leg 0 .proceed, .leg 0 .proceed, .leg 0 .proceed,
    .leg 0 .proceed, .leg 0 .proceed]

theorem safe_run_iff_splicedRun :
    ∀ past, past <+: splicedRun → ((new ⟨900, 60⟩).run past).Safe := by
  refine (safe_run_iff ⟨900, 60⟩ splicedRun).mpr ?_
  rintro past event hp n ⟨rfl, -⟩
  have hm : Event.leg n .proceed ∈ splicedRun := hp.subset (by simp)
  have hn : n ≤ 1 := by
    simp [splicedRun] at hm
    omega
  have hb : past <+: splicedRun := (prefix_append past _).trans hp
  have ha : ∀ k ≤ 11, ∀ n ≤ 1,
      (((new ⟨900, 60⟩).run (splicedRun.take k)).sessionOf n).killed = false := by
    decide +kernel
  have ht := ha past.length hb.length_le n hn
  rwa [← prefix_iff_eq_take.mp hb] at ht

/-- Both legs have joined, the client's leg has seen it and the heartbeat then ends the
session, before that leg comes to its loops. -/
def revokedRun : List Event :=
  [.leg 0 (.admitted sampleSession .client 100 100 60), .leg 0 .proceed,
    .leg 1 (.admitted sampleSession .agent 100 100 60), .leg 1 .proceed,
    .leg 0 .proceed, .leg 0 .proceed, .leg 0 .proceed,
    .heartbeat (.tick 10), .heartbeat .proceed, .heartbeat .proceed,
    .heartbeat (.answered [(sampleSession, "revoked")]), .heartbeat .proceed,
    .leg 0 .proceed, .leg 0 .proceed, .leg 0 .proceed, .leg 0 .proceed]

/-- The client's leg goes on forwarding what it receives. -/
theorem revokedRun_not_safe : ¬ ((new ⟨900, 60⟩).run revokedRun).Safe ∧
      (((new ⟨900, 60⟩).run revokedRun).sessionOf 0).kill.value = some "revoked:revoked" ∧
      (((new ⟨900, 60⟩).run (revokedRun ++ [.leg 0 .killChanged, .writer 0 .killChanged,
        .leg 0 (.binary [7]), .leg 0 .proceed])).legs 1).queue = [[7]] := by
  refine ⟨fun hs => ?_, by decide +kernel, by decide +kernel⟩
  have hc := hs 0 1 (by decide +kernel) (.inl (by decide +kernel))
  exact absurd hc (by decide +kernel)

end Pigeonpost.Tunnel.Broker
