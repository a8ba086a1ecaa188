import Atf.Nack
import Atf.Lib.Run
import Mathlib.Data.List.Induction

/-!
# Stopping the heartbeat

`StopHeartbeat` stops the timer but leaves `heartbeatToSDLTimerStarted` set, and `OnMessageSent` goes by that flag:
any message but a HEARTBEAT or its ACK starts the timer again. Nothing is sent on its ticks, as the slot has a test of
its own. The timer stays stopped exactly in the runs without such a message (`heartbeat_stopped_iff`).

The slot is connected by a queue, so a tick may be answered after the heartbeat was stopped.
-/

namespace Atf
open Lua

/-! ### The machine -/

/-- The slot `SendHeartbeat` of the proxy. -/
def Session.sendHeartbeat (self : Session) : Session :=
  if self.heartbeat_monitor.heartbeatEnabled && self.sendHeartbeatToSDL then
    self.sendControl SERVICE_TYPE.CONTROL FRAME_INFO.HEARTBEAT false none
  else self

/-- A session, and how many ticks of its timer wait for the slot. -/
structure Beating where
  session : Session
  ticks : Nat

namespace Beating

inductive Event
  | startHeartbeat
  | stopHeartbeat
  | setHeartbeatTimeout (timeout : Int)
  | onMessageSent (message : SentMessage)
  | timeout
  | sendHeartbeat
  -- the flags of the mobile session, which a script sets, and the ACK of a heartbeat
  | setFlags (activateHeartbeat sendHeartbeatToSDL ignoreHeartBeatAck : Bool)
  | heartbeatAck

def withMonitor (s : Beating) (f : HeartBeatMonitor → HeartBeatMonitor) : Beating :=
  { s with session := { s.session with heartbeat_monitor := f s.session.heartbeat_monitor } }

def step (s : Beating) : Event → Beating
  | .startHeartbeat => { s with session := s.session.monitorStartHeartbeat }
  | .stopHeartbeat => s.withMonitor .stopHeartbeat
  | .setHeartbeatTimeout timeout => s.withMonitor (·.setHeartbeatTimeout timeout)
  | .onMessageSent message => s.withMonitor (·.onMessageSent message)
  | .timeout =>
    let monitor := s.session.heartbeat_monitor
    if monitor.heartbeatToSDLTimer.active && monitor.heartbeatToSDLTimerRegistered then { s with ticks := s.ticks + 1 }
    else s
  | .sendHeartbeat => if s.ticks = 0 then s else ⟨s.session.sendHeartbeat, s.ticks - 1⟩
  | .setFlags activateHeartbeat sendHeartbeatToSDL ignoreHeartBeatAck =>
    { s with session := { s.session with activateHeartbeat, sendHeartbeatToSDL, ignoreHeartBeatAck } }
  | .heartbeatAck => s.withMonitor fun monitor => { monitor with isHeartbeatConfirmedBySDL := true }

/-- A new session. -/
def start (session : Session) (heartbeatTimeout : Int) : Beating :=
  ⟨{ session with heartbeat_monitor := .new heartbeatTimeout }, 0⟩

/-- With the heartbeat stopped, the timer does not run and no tick sends anything. -/
def StaysStopped (s : Beating) : Prop :=
  s.session.heartbeat_monitor.heartbeatEnabled = false →
    s.session.heartbeat_monitor.heartbeatToSDLTimer.active = false ∧
    (s.step .timeout).session.sent = s.session.sent ∧ (s.step .sendHeartbeat).session.sent = s.session.sent

/-- No message starts the timer again behind the monitor's back. -/
def Allowed (s : Beating) : Event → Prop
  | .onMessageSent message => isHeartbeatMessage message = true ∨ isHeartbeatAckMessage message = true ∨
      s.session.heartbeat_monitor.heartbeatEnabled = true ∨
      s.session.heartbeat_monitor.heartbeatToSDLTimerStarted = false
  | _ => True

/-! ### The timer -/

/-- The timer runs only while the heartbeat is enabled, and once it has been started. -/
structure Timed (monitor : HeartBeatMonitor) : Prop where
  stopped : monitor.heartbeatEnabled = false → monitor.heartbeatToSDLTimer.active = false
  started : monitor.heartbeatToSDLTimer.active = true → monitor.heartbeatToSDLTimerStarted = true

theorem sendControl_heartbeat (s : Session) :
    (s.sendControl SERVICE_TYPE.CONTROL FRAME_INFO.HEARTBEAT false none).heartbeat_monitor = s.heartbeat_monitor := by
  have hsent (m : HeartBeatMonitor) {message : SentMessage} (h : isHeartbeatMessage message = true) :
      m.onMessageSent message = m := by
    rw [HeartBeatMonitor.onMessageSent, h]
    rfl
  simp only [Session.sendControl, Session.send]
  split
  · rw [hsent _ rfl, hsent _ rfl]
  · rfl

theorem sendHeartbeat_monitor (s : Session) : s.sendHeartbeat.heartbeat_monitor = s.heartbeat_monitor := by
  unfold Session.sendHeartbeat
  split
  · exact sendControl_heartbeat s
  · rfl

theorem timed_new (heartbeatTimeout : Int) : Timed (.new heartbeatTimeout) where
  stopped _ := rfl
  started h := by cases h

theorem Timed.startHeartbeat {s : Session} (h : Timed s.heartbeat_monitor) :
    Timed s.monitorStartHeartbeat.heartbeat_monitor where
  stopped hdisabled := by
    rw [Session.monitorStartHeartbeat_enabled] at hdisabled
    cases hdisabled
  started := by
    unfold Session.monitorStartHeartbeat
    dsimp only
    split
    · rw [sendControl_heartbeat]
      dsimp only
      by_cases hsend : s.sendHeartbeatToSDL = true
      · rw [if_pos hsend]
        exact fun _ => rfl
      · rw [if_neg hsend]
        split_ifs <;> exact h.started
    · exact h.started

theorem Timed.stopHeartbeat {monitor : HeartBeatMonitor} (h : Timed monitor) : Timed monitor.stopHeartbeat := by
  unfold HeartBeatMonitor.stopHeartbeat
  split
  · by_cases hstarted : monitor.heartbeatToSDLTimerStarted = true
    · rw [if_pos hstarted]
      exact ⟨fun _ => rfl, fun _ => hstarted⟩
    · rw [if_neg hstarted]
      have hactive : monitor.heartbeatToSDLTimer.active = false := by
        rw [← Bool.not_eq_true]
        exact fun hactive => hstarted (h.started hactive)
      exact ⟨fun _ => hactive, h.started⟩
  · exact h

/-- What a message does to the timer. -/
theorem timed_onMessageSent_iff {monitor : HeartBeatMonitor} (h : Timed monitor) (message : SentMessage) :
    Timed (monitor.onMessageSent message) ↔ isHeartbeatMessage message = true ∨
      isHeartbeatAckMessage message = true ∨ monitor.heartbeatEnabled = true ∨
      monitor.heartbeatToSDLTimerStarted = false := by
  unfold HeartBeatMonitor.onMessageSent
  split
  · rename_i hreset
    simp only [Bool.and_eq_true, Bool.not_eq_true', Bool.or_eq_false_iff] at hreset
    obtain ⟨⟨hbeat, hack⟩, hstarted⟩ := hreset
    constructor
    · intro hreset
      refine .inr (.inr (.inl ?_))
      rw [← Bool.not_eq_false]
      intro henabled
      cases hreset.stopped henabled
    · rintro (hbeat' | hack' | henabled | hstarted')
      · cases hbeat.symm.trans hbeat'
      · cases hack.symm.trans hack'
      · exact ⟨fun hdisabled => absurd (henabled.symm.trans hdisabled) nofun, fun _ => hstarted⟩
      · cases hstarted.symm.trans hstarted'
  · rename_i hkeep
    refine iff_of_true h ?_
    simp only [Bool.and_eq_true, Bool.not_eq_true', Bool.or_eq_false_iff, not_and, Bool.not_eq_true] at hkeep
    by_cases hbeat : isHeartbeatMessage message = true
    · exact .inl hbeat
    · by_cases hack : isHeartbeatAckMessage message = true
      · exact .inr (.inl hack)
      · exact .inr (.inr (.inr (hkeep ⟨Bool.eq_false_of_not_eq_true hbeat, Bool.eq_false_of_not_eq_true hack⟩)))

/-! ### The runs -/

theorem timed_step_iff {s : Beating} (h : Timed s.session.heartbeat_monitor) (e : Event) :
    Timed (s.step e).session.heartbeat_monitor ↔ s.Allowed e := by
  cases e with
  | startHeartbeat => exact iff_of_true h.startHeartbeat trivial
  | stopHeartbeat => exact iff_of_true h.stopHeartbeat trivial
  | setHeartbeatTimeout timeout => exact iff_of_true ⟨h.stopped, h.started⟩ trivial
  | onMessageSent message => exact timed_onMessageSent_iff h message
  | timeout =>
    refine iff_of_true ?_ trivial
    dsimp only [step]
    split
    · exact h
    · exact h
  | sendHeartbeat =>
    refine iff_of_true ?_ trivial
    dsimp only [step]
    split
    · exact h
    · rw [sendHeartbeat_monitor]
      exact h
  | setFlags activateHeartbeat sendHeartbeatToSDL ignoreHeartBeatAck => exact iff_of_true h trivial
  | heartbeatAck => exact iff_of_true ⟨h.stopped, h.started⟩ trivial

theorem Timed.started_step {s : Beating} (h : Timed s.session.heartbeat_monitor) (e : Event)
    (hactive : (s.step e).session.heartbeat_monitor.heartbeatToSDLTimer.active = true) :
    (s.step e).session.heartbeat_monitor.heartbeatToSDLTimerStarted = true := by
  by_cases hallowed : s.Allowed e
  · exact ((timed_step_iff h e).mpr hallowed).started hactive
  · cases e with
    | onMessageSent message =>
      have hkept : (s.session.heartbeat_monitor.onMessageSent message).heartbeatToSDLTimerStarted =
          s.session.heartbeat_monitor.heartbeatToSDLTimerStarted := by
        unfold HeartBeatMonitor.onMessageSent
        split <;> rfl
      refine hkept.trans (Bool.of_not_eq_false fun hstarted => hallowed ?_)
      exact .inr (.inr (.inr hstarted))
    | _ => exact absurd trivial hallowed

theorem Timed.staysStopped {s : Beating} (h : Timed s.session.heartbeat_monitor) : s.StaysStopped := by
  intro hdisabled
  refine ⟨h.stopped hdisabled, ?_, ?_⟩
  · dsimp only [step]
    split
    · rfl
    · rfl
  · dsimp only [step]
    split
    · rfl
    · rw [Session.sendHeartbeat, hdisabled]
      rfl

/-- The heartbeat stays stopped in every state of a run exactly if no message starts the timer again. -/
theorem heartbeat_stopped_iff (session : Session) (heartbeatTimeout : Int) (events : List Event) :
    (∀ es, es <+: events → (es.foldl step (start session heartbeatTimeout)).StaysStopped) ↔
      Run.Allows step Allowed (start session heartbeatTimeout) events := by
  have h₀ : Timed (start session heartbeatTimeout).session.heartbeat_monitor := timed_new heartbeatTimeout
  have hiff := Run.forall_prefix_iff (I := fun s : Beating => Timed s.session.heartbeat_monitor)
    (fun _ e h => timed_step_iff h e) h₀ events
  rw [← hiff]
  constructor
  · intro hall es
    -- the second part of the invariant holds in every run
    induction es using List.reverseRecOn with
    | nil => exact fun _ => h₀
    | append_singleton es e ih =>
      intro hes
      have h := ih ((List.prefix_append es [e]).trans hes)
      have hstays := hall (es ++ [e]) hes
      rw [List.foldl_append] at hstays ⊢
      exact ⟨fun hdisabled => (hstays hdisabled).1, h.started_step e⟩
  · intro hall es hes
    exact (hall es hes).staysStopped

def plainSession : Session :=
  { sessionId := 1, hashCode := none, version := 3, messageId := 0, activateHeartbeat := true
    sendHeartbeatToSDL := true, ignoreHeartBeatAck := false, heartbeat_monitor := .new 0, security := 0
    encryptedServices := Table.empty, sent := [] }

def rpcMessage : SentMessage := ⟨3, false, FRAME_TYPE.SINGLE_FRAME, SERVICE_TYPE.RPC, 0, 1, 1, none⟩

/-- A message that is sent behind `StopHeartbeat` starts the timer. -/
theorem heartbeat_restarted :
    let s := [.startHeartbeat, .stopHeartbeat, .onMessageSent rpcMessage].foldl step (start plainSession 7000)
    s.session.heartbeat_monitor.heartbeatEnabled = false ∧
      s.session.heartbeat_monitor.heartbeatToSDLTimer = ⟨true, 7000⟩ ∧ ¬ s.StaysStopped :=
  ⟨rfl, rfl, fun h => absurd (h rfl).1 nofun⟩

end Beating

end Atf
