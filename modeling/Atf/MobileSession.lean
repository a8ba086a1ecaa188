import Atf.Protocol
import Atf.EventDispatcher

/-!
# The mobile session (`mobile_session_impl.lua`, `control_service.lua`, `heartbeat_monitor.lua`)

A session keeps its id and hash code, its heartbeat monitor and its security object; the security manager
keeps the security objects of all sessions by session id. Starting and stopping a service sends a control
message and returns an expectation for the answer, ACK or NACK, whose actions change the session.

`Core` is the part of the world these actions work on, and `ω` the rest of it, which is what the actions of
a test script change. Messages are given to the connection in the order of `sent`; `expected` names the
expectations the heartbeat monitor has registered.
-/

namespace Atf
open Lua

/-! ### The heartbeat monitor -/

/-- A `QTimer` (`timers.cc`). -/
structure Timer where
  active : Bool
  interval : Int
deriving DecidableEq, Repr

namespace Timer

def start (self : Timer) (msec : Option Int) : Timer := ⟨true, msec.getD self.interval⟩

def stop (self : Timer) : Timer := { self with active := false }

def reset (self : Timer) : Timer := self.stop.start none

def setInterval (self : Timer) (msec : Int) : Timer := { self with interval := msec }

end Timer

structure HeartBeatMonitor where
  heartbeatTimeout : Int
  heartbeatToSDLTimer : Timer
  heartbeatEnabled : Bool
  isHeartbeatConfirmedBySDL : Bool
  heartbeatToSDLTimerRegistered : Bool
  heartbeatToSDLTimerStarted : Bool
  expected : List String
deriving DecidableEq, Repr

structure SentMessage where
  version : Nat
  encryption : Bool
  frameType : Nat
  serviceType : Nat
  frameInfo : Nat
  sessionId : Nat
  messageId : Nat
  binaryData : Option Bytes
deriving DecidableEq, Repr

def isHeartbeatMessage (message : SentMessage) : Bool :=
  message.frameType == FRAME_TYPE.CONTROL_FRAME && message.serviceType == SERVICE_TYPE.CONTROL &&
    message.frameInfo == FRAME_INFO.HEARTBEAT

def isHeartbeatAckMessage (message : SentMessage) : Bool :=
  message.frameType == FRAME_TYPE.CONTROL_FRAME && message.serviceType == SERVICE_TYPE.CONTROL &&
    message.frameInfo == FRAME_INFO.HEARTBEAT_ACK

namespace HeartBeatMonitor

def new (heartbeatTimeout : Int) : HeartBeatMonitor :=
  ⟨heartbeatTimeout, ⟨false, 0⟩, false, false, false, false, []⟩

def onMessageSent (self : HeartBeatMonitor) (message : SentMessage) : HeartBeatMonitor :=
  if !(isHeartbeatMessage message || isHeartbeatAckMessage message) && self.heartbeatToSDLTimerStarted then
    { self with heartbeatToSDLTimer := self.heartbeatToSDLTimer.reset }
  else self

def stopHeartbeat (self : HeartBeatMonitor) : HeartBeatMonitor :=
  if self.heartbeatEnabled then
    { self with
      heartbeatEnabled := false
      heartbeatToSDLTimer :=
        if self.heartbeatToSDLTimerStarted then self.heartbeatToSDLTimer.stop else self.heartbeatToSDLTimer }
  else self

def setHeartbeatTimeout (self : HeartBeatMonitor) (timeout : Int) : HeartBeatMonitor :=
  { self with
    heartbeatTimeout := timeout, heartbeatToSDLTimer := self.heartbeatToSDLTimer.setInterval timeout }

end HeartBeatMonitor

/-! ### The session -/

/-- A `MobileSessionImpl`; `hashCode` is `none` for its initial value `0`, and `security` stands for the
identity of its security object. -/
structure Session where
  sessionId : Nat
  hashCode : Option Bytes
  version : Nat
  messageId : Nat
  activateHeartbeat : Bool
  sendHeartbeatToSDL : Bool
  ignoreHeartBeatAck : Bool
  heartbeat_monitor : HeartBeatMonitor
  security : Nat
  encryptedServices : Table Nat Bool
  sent : List SentMessage

namespace Session

/-- `Send`; the heartbeat monitor is told twice. -/
def send (self : Session) (serviceType frameInfo frameType : Nat) (encryption : Bool)
    (binaryData : Option Bytes) : Session :=
  let messageId := self.messageId + 1
  let message : SentMessage :=
    { version := self.version, encryption, frameType, serviceType, frameInfo, sessionId := self.sessionId
      messageId, binaryData }
  let monitor :=
    if self.activateHeartbeat then (self.heartbeat_monitor.onMessageSent message).onMessageSent message
    else self.heartbeat_monitor
  { self with messageId, sent := self.sent ++ [message], heartbeat_monitor := monitor }

def sendControl (self : Session) (serviceType frameInfo : Nat) (encryption : Bool)
    (binaryData : Option Bytes) : Session :=
  self.send serviceType frameInfo FRAME_TYPE.CONTROL_FRAME encryption binaryData

/-- `StartHeartbeat` of the monitor. -/
def monitorStartHeartbeat (self : Session) : Session :=
  let monitor := self.heartbeat_monitor
  if !monitor.heartbeatEnabled then
    let monitor := { monitor with heartbeatEnabled := true }
    let monitor :=
      if !monitor.isHeartbeatConfirmedBySDL then
        let monitor :=
          if self.ignoreHeartBeatAck then { monitor with isHeartbeatConfirmedBySDL := true }
          else { monitor with expected := monitor.expected ++ ["HeartbeatACK"] }
        { monitor with expected := monitor.expected ++ ["Heartbeat"] }
      else monitor
    let monitor := { monitor with heartbeatToSDLTimerRegistered := true }
    let monitor :=
      if self.sendHeartbeatToSDL then
        { monitor with
          heartbeatToSDLTimer := monitor.heartbeatToSDLTimer.start (some monitor.heartbeatTimeout)
          heartbeatToSDLTimerStarted := true }
      else monitor
    sendControl { self with heartbeat_monitor := monitor } SERVICE_TYPE.CONTROL FRAME_INFO.HEARTBEAT false none
  else self

def startHeartbeat (self : Session) : Session :=
  if self.activateHeartbeat then self.monitorStartHeartbeat else self

def stopHeartbeat (self : Session) : Session :=
  { self with heartbeat_monitor := self.heartbeat_monitor.stopHeartbeat }

end Session

/-- The session, and `SecurityManager.mobileSecurities`. -/
structure Core where
  session : Session
  mobileSecurities : Table Nat Nat

namespace Core

/-- The entry of the session id is only taken when it is free. -/
def registerSessionSecurity (self : Core) : Core :=
  match self.mobileSecurities self.session.sessionId with
  | none => { self with
      mobileSecurities := self.mobileSecurities.set self.session.sessionId self.session.security }
  | some _ => self

def unregisterSessionSecurity (self : Core) : Core :=
  { self with mobileSecurities := self.mobileSecurities.erase self.session.sessionId }

def unregisterSecureService (self : Core) (service : Nat) : Core :=
  { self with session := { self.session with
      encryptedServices := self.session.encryptedServices.erase service } }

def unregisterAllSecureServices (self : Core) : Core :=
  { self with session := { self.session with encryptedServices := Table.empty } }

end Core

/-! ### Services -/

variable {ω J : Type}

def onCore (f : ExpectationData → Msg J → Core → Core) : Action (Core × ω) (Msg J) :=
  fun exp data w => (f exp data w.1, w.2)

def onRest (f : ExpectationData → Msg J → Core × ω → ω) : Action (Core × ω) (Msg J) :=
  fun exp data w => (w.1, f exp data w)

def startServiceMatches (service : Nat) (isSecure : Bool) (session : Session) (data : Msg J) : Bool :=
  data.frameType == FRAME_TYPE.CONTROL_FRAME && data.serviceType == service &&
    ((service == SERVICE_TYPE.RPC && session.sessionId == 0) || data.sessionId == session.sessionId) &&
    (data.frameInfo == FRAME_INFO.START_SERVICE_ACK || data.frameInfo == FRAME_INFO.START_SERVICE_NACK) &&
    data.encryption == isSecure

def startServiceAck : Validation (Msg J) := fun _ data =>
  if data.frameInfo == FRAME_INFO.START_SERVICE_ACK then (true, none)
  else (false, some "StartService NACK received")

def startServiceExp (service : Nat) (ts : Int) : Handler (Core × ω) (Msg J) :=
  { matchesData := fun w data => startServiceMatches service false w.1.session data
    exp := (Expectation.new "StartService ACK" ts).validIf startServiceAck
    actions := [] }

def startRPCAction (exp : ExpectationData) (data : Msg J) (core : Core) : Core :=
  if exp.status = some .FAILED then core
  else
    let session := { core.session with sessionId := data.sessionId, hashCode := some data.binaryData }
    { core with session := if session.version > 2 then session.startHeartbeat else session }

def startRPCExp (ts : Int) : Handler (Core × ω) (Msg J) :=
  (startServiceExp SERVICE_TYPE.RPC ts).doAction (onCore startRPCAction)

def stopServiceMatches (service : Nat) (session : Session) (data : Msg J) : Bool :=
  data.frameType == FRAME_TYPE.CONTROL_FRAME && data.serviceType == service &&
    data.sessionId == session.sessionId &&
    (data.frameInfo == FRAME_INFO.END_SERVICE_ACK || data.frameInfo == FRAME_INFO.END_SERVICE_NACK)

def endServiceAck : Validation (Msg J) := fun _ data =>
  if data.frameInfo == FRAME_INFO.END_SERVICE_ACK then (true, none) else (false, some "EndService NACK received")

/-- The expectation of `ControlService:StopService`. -/
def controlStopServiceExp (service : Nat) (ts : Int) : Handler (Core × ω) (Msg J) :=
  { matchesData := fun w data => stopServiceMatches service w.1.session data
    exp := (Expectation.new "EndService ACK" ts).validIf endServiceAck
    actions := [] }

def stopServiceAction (service : Nat) (exp : ExpectationData) (_ : Msg J) (core : Core) : Core :=
  if exp.status = some .FAILED then core else core.unregisterSecureService service

def stopServiceExp (service : Nat) (ts : Int) : Handler (Core × ω) (Msg J) :=
  (controlStopServiceExp service ts).doAction (onCore (stopServiceAction service))

def stopRPCAction (_ : ExpectationData) (_ : Msg J) (core : Core) : Core :=
  core.unregisterAllSecureServices.unregisterSessionSecurity

def stopRPCExp (ts : Int) : Handler (Core × ω) (Msg J) :=
  (controlStopServiceExp SERVICE_TYPE.RPC ts).doAction (onCore stopRPCAction)

namespace Core

def startService (self : Core) (service : Nat) (ts : Int) : Core × Handler (Core × ω) (Msg J) :=
  ({ self with session := self.session.sendControl service FRAME_INFO.START_SERVICE false none },
    startServiceExp service ts)

def startRPC (self : Core) (ts : Int) : Core × Handler (Core × ω) (Msg J) :=
  ({ self with session := self.session.sendControl SERVICE_TYPE.RPC FRAME_INFO.START_SERVICE false none },
    startRPCExp ts)

/-- `ControlService:StopService` up to its expectation. -/
def controlStopService (self : Core) (service : Nat) : LuaM Core :=
  match self.session.hashCode with
  | none => .error "StartServiceAck was not received. Unable to stop not started service"
  | some hashCode => .ok { self with
      session := self.session.sendControl service FRAME_INFO.END_SERVICE false (some hashCode) }

def stopService (self : Core) (service : Nat) (ts : Int) : LuaM (Core × Handler (Core × ω) (Msg J)) := do
  let core ← self.controlStopService service
  return (core, stopServiceExp service ts)

def stopRPC (self : Core) (ts : Int) : LuaM (Core × Handler (Core × ω) (Msg J)) := do
  let core ← self.controlStopService SERVICE_TYPE.RPC
  return ({ core with session := core.session.stopHeartbeat }, stopRPCExp ts)

end Core

end Atf
