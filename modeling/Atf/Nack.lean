import Atf.MobileSession
import Atf.Verdict

/-!
# What a NACK does to the session

The validation of a start or end service expectation only records that a NACK came; the status becomes
`FAILED` in `validate`, which runs after the actions. So the test of the status in the actions of
`StartRPC` and `StopService` looks at the status before this event, and a NACK that finds none is treated as
an ACK: the session takes over the ids of the NACK and starts its heartbeat, or drops its encrypted service.
The action of `StopRPC` has no test at all.
-/

namespace Atf
open Lua

variable {ω J : Type} {checkAll : Option Bool}

/-! ### One event -/

/-- An expectation of the session in any state, with actions of a test script before and after its own. -/
def Handler.attached (base : Handler (Core × ω) (Msg J)) (exp : Expectation (Msg J))
    (before after : List (ExpectationData → Msg J → Core × ω → ω)) : Handler (Core × ω) (Msg J) :=
  { base with exp, actions := before.map onRest ++ base.actions ++ after.map onRest }

theorem foldl_onRest (fs : List (ExpectationData → Msg J → Core × ω → ω)) (exp : ExpectationData) (data : Msg J)
    (w : Core × ω) :
    ((fs.map onRest).foldl (fun w (action : Action (Core × ω) (Msg J)) => action exp data w) w).1 = w.1 := by
  induction fs generalizing w with
  | nil => rfl
  | cons f fs ih => exact ih (onRest f exp data w)

section Raise
variable (base : Handler (Core × ω) (Msg J)) (timestamp : Int) {data : Msg J} (exp : Expectation (Msg J))
  (before after : List (ExpectationData → Msg J → Core × ω → ω)) {w : Core × ω}

theorem raiseEvent_none (hb : base.actions = []) :
    ((base.attached exp before after).raiseEvent checkAll timestamp data w).2.1 = w.1 := by
  unfold Handler.raiseEvent
  split
  · simp only [Handler.attached, Handler.action, hb, List.append_nil, List.foldl_append]
    rw [foldl_onRest, foldl_onRest]
  · rfl

/-- The one action of the session sees the status the expectation had before the event. -/
theorem raiseEvent_own {f : ExpectationData → Msg J → Core → Core} (hb : base.actions = [onCore f])
    (hm : base.matchesData w data = true) :
    ∃ e : ExpectationData, e.status = exp.status ∧
      ((base.attached exp before after).raiseEvent checkAll timestamp data w).2.1 = f e data w.1 := by
  obtain ⟨hver, -⟩ := Expectation.occur_spec checkAll (some data) exp
  refine ⟨(exp.occur checkAll (some data)).1.toExpectationData, hver.status, ?_⟩
  have hm' : (base.attached exp before after).matchesData w data = true := hm
  unfold Handler.raiseEvent
  rw [if_pos hm']
  simp only [Handler.attached, Handler.action, hb, List.foldl_append, List.foldl_cons, List.foldl_nil]
  rw [foldl_onRest]
  simp only [onCore]
  rw [foldl_onRest]

end Raise

/-! ### The heartbeat -/

namespace Session

theorem onMessageSent_heartbeatEnabled (m : HeartBeatMonitor) (message : SentMessage) :
    (m.onMessageSent message).heartbeatEnabled = m.heartbeatEnabled := by
  unfold HeartBeatMonitor.onMessageSent
  split <;> rfl

theorem sendControl_heartbeatEnabled (s : Session) (serviceType frameInfo : Nat) (encryption : Bool)
    (binaryData : Option Bytes) :
    (s.sendControl serviceType frameInfo encryption binaryData).heartbeat_monitor.heartbeatEnabled =
      s.heartbeat_monitor.heartbeatEnabled := by
  simp only [sendControl, send]
  split
  · rw [onMessageSent_heartbeatEnabled, onMessageSent_heartbeatEnabled]
  · rfl

theorem monitorStartHeartbeat_enabled (s : Session) :
    s.monitorStartHeartbeat.heartbeat_monitor.heartbeatEnabled = true := by
  cases he : s.heartbeat_monitor.heartbeatEnabled with
  | true => simp [monitorStartHeartbeat, he]
  | false =>
    simp only [monitorStartHeartbeat, he, Bool.not_false, ↓reduceIte, sendControl_heartbeatEnabled]
    split_ifs <;> rfl

theorem startHeartbeat_ids (s : Session) :
    s.startHeartbeat.sessionId = s.sessionId ∧ s.startHeartbeat.hashCode = s.hashCode := by
  simp only [startHeartbeat, monitorStartHeartbeat]
  split_ifs <;> exact ⟨rfl, rfl⟩

/-- Starting the heartbeat changes nothing only if it is not activated or runs already. -/
theorem startHeartbeat_monitor_iff (s : Session) :
    s.startHeartbeat.heartbeat_monitor = s.heartbeat_monitor ↔
      s.activateHeartbeat = false ∨ s.heartbeat_monitor.heartbeatEnabled = true := by
  cases ha : s.activateHeartbeat with
  | false => simp [startHeartbeat, ha]
  | true =>
    simp only [startHeartbeat, ha, ↓reduceIte, Bool.true_eq_false, false_or]
    constructor
    · intro h
      rw [← h]
      exact s.monitorStartHeartbeat_enabled
    · intro h
      simp [monitorStartHeartbeat, h]

end Session

/-! ### The four expectations -/

/-- The session id, the hash code and the heartbeat are as they were. -/
def SessionIntact (c c' : Core) : Prop :=
  c'.session.sessionId = c.session.sessionId ∧ c'.session.hashCode = c.session.hashCode ∧
    c'.session.heartbeat_monitor = c.session.heartbeat_monitor

/-- The encrypted services and the registrations in the security manager are as they were. -/
def SecurityIntact (c c' : Core) : Prop :=
  c'.session.encryptedServices = c.session.encryptedServices ∧ c'.mobileSecurities = c.mobileSecurities

theorem startRPCAction_intact_iff (e : ExpectationData) (data : Msg J) (c : Core) :
    SessionIntact c (startRPCAction e data c) ↔ e.status = some .FAILED ∨
      (data.sessionId = c.session.sessionId ∧ some data.binaryData = c.session.hashCode ∧
        (c.session.version ≤ 2 ∨ c.session.activateHeartbeat = false ∨
          c.session.heartbeat_monitor.heartbeatEnabled = true)) := by
  unfold startRPCAction
  split
  · rename_i hf
    exact iff_of_true ⟨rfl, rfl, rfl⟩ (.inl hf)
  · rename_i hf
    simp only [SessionIntact, hf, false_or]
    split
    · rename_i hv
      have hids := Session.startHeartbeat_ids
        { c.session with sessionId := data.sessionId, hashCode := some data.binaryData }
      rw [hids.1, hids.2, Session.startHeartbeat_monitor_iff]
      simp only [show ¬ c.session.version ≤ 2 from Nat.not_le.mpr hv, false_or]
    · rename_i hv
      simp only [Nat.not_lt.mp hv, true_or, and_true]

theorem stopServiceAction_intact_iff (service : Nat) (e : ExpectationData) (data : Msg J) (c : Core) :
    SecurityIntact c (stopServiceAction service e data c) ↔ e.status = some .FAILED ∨
      c.session.encryptedServices service = none := by
  unfold stopServiceAction
  split
  · rename_i hf
    exact iff_of_true ⟨rfl, rfl⟩ (.inl hf)
  · rename_i hf
    simp only [SecurityIntact, Core.unregisterSecureService, hf, false_or, and_true, Table.erase_eq_self_iff]

theorem stopRPCAction_intact_iff (e : ExpectationData) (data : Msg J) (c : Core) :
    SecurityIntact c (stopRPCAction e data c) ↔
      c.session.encryptedServices = Table.empty ∧ c.mobileSecurities c.session.sessionId = none := by
  simp only [SecurityIntact, stopRPCAction, Core.unregisterAllSecureServices, Core.unregisterSessionSecurity,
    Table.erase_eq_self_iff, eq_comm (a := Table.empty)]

/-- When a NACK leaves the session as it was, by the expectation that gets it: that of `StartRPC`, of
`control_service:StartService`, of `StopService` or of `StopRPC`. -/
theorem nack_intact_iff (checkAll : Option Bool) (timestamp ts : Int) (exp : Expectation (Msg J))
    (before after : List (ExpectationData → Msg J → Core × ω → ω)) (w : Core × ω) (data : Msg J) :
    (startServiceMatches SERVICE_TYPE.RPC false w.1.session data = true →
      data.frameInfo = FRAME_INFO.START_SERVICE_NACK →
      (SessionIntact w.1
          (((startRPCExp ts).attached exp before after).raiseEvent checkAll timestamp data w).2.1 ↔
        exp.status = some .FAILED ∨
          (data.sessionId = w.1.session.sessionId ∧ some data.binaryData = w.1.session.hashCode ∧
            (w.1.session.version ≤ 2 ∨ w.1.session.activateHeartbeat = false ∨
              w.1.session.heartbeat_monitor.heartbeatEnabled = true))) ∧
      SessionIntact w.1
        (((startServiceExp SERVICE_TYPE.RPC ts).attached exp before after).raiseEvent checkAll timestamp data
          w).2.1) ∧
    (∀ service, stopServiceMatches service w.1.session data = true →
      data.frameInfo = FRAME_INFO.END_SERVICE_NACK →
      (SecurityIntact w.1
          (((stopServiceExp service ts).attached exp before after).raiseEvent checkAll timestamp data w).2.1 ↔
        exp.status = some .FAILED ∨ w.1.session.encryptedServices service = none)) ∧
    (stopServiceMatches SERVICE_TYPE.RPC w.1.session data = true →
      data.frameInfo = FRAME_INFO.END_SERVICE_NACK →
      (SecurityIntact w.1
          (((stopRPCExp ts).attached exp before after).raiseEvent checkAll timestamp data w).2.1 ↔
        w.1.session.encryptedServices = Table.empty ∧
          w.1.mobileSecurities w.1.session.sessionId = none)) := by
  refine ⟨?_, ?_, ?_⟩
  · intro hm _
    refine ⟨?_, ?_⟩
    · obtain ⟨e, hs, hw⟩ := raiseEvent_own (startRPCExp ts) timestamp exp before after rfl hm
      rw [hw, startRPCAction_intact_iff, hs]
    · rw [raiseEvent_none _ timestamp exp before after rfl]
      exact ⟨rfl, rfl, rfl⟩
  · intro service hm _
    obtain ⟨e, hs, hw⟩ := raiseEvent_own (stopServiceExp service ts) timestamp exp before after rfl hm
    rw [hw, stopServiceAction_intact_iff, hs]
  · intro hm _
    obtain ⟨e, -, hw⟩ := raiseEvent_own (stopRPCExp ts) timestamp exp before after rfl hm
    rw [hw, stopRPCAction_intact_iff]

/-! ### A NACK to a new session, and one to a secured session -/

namespace Sample

def session : Session :=
  { sessionId := 0, hashCode := none, version := 3, messageId := 1, activateHeartbeat := true
    sendHeartbeatToSDL := true, ignoreHeartBeatAck := false, heartbeat_monitor := .new 7000, security := 1
    encryptedServices := Table.empty, sent := [] }

def fresh : Core := ⟨session, Table.empty⟩

def secured : Core :=
  ⟨{ session with
      sessionId := 1, hashCode := some [1, 2, 3, 4]
      encryptedServices := Table.empty.set SERVICE_TYPE.RPC true }, Table.empty.set 1 1⟩

def controlFrame (frameInfo sessionId : Nat) : Msg Unit :=
  { version := 3, frameType := FRAME_TYPE.CONTROL_FRAME, encryption := false, serviceType := SERVICE_TYPE.RPC
    frameInfo, sessionId, size := 0, messageId := 1, binaryData := [], decryptionStatus := .NO_ENCRYPTION
    rpcType := none, rpcFunctionId := none, rpcJsonSize := none, rpcCorrelationId := none, payload := none }

end Sample

/-- The NACK to `StartRPC` sets the hash code and starts the heartbeat; the NACK to `StopRPC` drops the
encrypted service and the registration. -/
theorem nack_changes_session :
    let started := ((startRPCExp 0).raiseEvent (some false) 0
      (Sample.controlFrame FRAME_INFO.START_SERVICE_NACK 0) (Sample.fresh, ())).2.1
    let stopped := ((stopRPCExp 0).raiseEvent (some false) 0
      (Sample.controlFrame FRAME_INFO.END_SERVICE_NACK 1) (Sample.secured, ())).2.1
    (Sample.fresh.session.hashCode = none ∧ started.session.hashCode = some []) ∧
      (Sample.fresh.session.heartbeat_monitor.heartbeatEnabled = false ∧
        started.session.heartbeat_monitor.heartbeatEnabled = true) ∧
      (Sample.secured.session.encryptedServices SERVICE_TYPE.RPC = some true ∧
        stopped.session.encryptedServices SERVICE_TYPE.RPC = none) ∧
      Sample.secured.mobileSecurities 1 = some 1 ∧ stopped.mobileSecurities 1 = none := by
  decide

theorem nack_intact_iff_sample :
    ¬ SessionIntact Sample.fresh (((startRPCExp 0).attached (Expectation.new "StartService ACK" 0) [] []).raiseEvent
      (some false) 0 (Sample.controlFrame FRAME_INFO.START_SERVICE_NACK 0) (Sample.fresh, ())).2.1 ∧
    ¬ SecurityIntact Sample.secured (((stopRPCExp 0).attached (Expectation.new "EndService ACK" 0) [] []).raiseEvent
      (some false) 0 (Sample.controlFrame FRAME_INFO.END_SERVICE_NACK 1) (Sample.secured, ())).2.1 := by
  refine ⟨?_, ?_⟩
  · rw [((nack_intact_iff (some false) 0 0 (Expectation.new "StartService ACK" 0) [] [] (Sample.fresh, ())
      (Sample.controlFrame FRAME_INFO.START_SERVICE_NACK 0)).1 (by decide) rfl).1]
    rintro (h | ⟨-, h, -⟩)
    · cases h
    · cases h
  · rw [(nack_intact_iff (some false) 0 0 (Expectation.new "EndService ACK" 0) [] [] (Sample.secured, ())
      (Sample.controlFrame FRAME_INFO.END_SERVICE_NACK 1)).2.2 (by decide) rfl]
    rintro ⟨-, h⟩
    cases h

end Atf
