import Atf.MobileSession

/-!
# Secured sessions (`mobile_session_impl.lua`, `security_manager.lua`)

All sessions of a run together, with the one table `SecurityManager.mobileSecurities` they share. A call
of the test script starts or stops a service of a session and leaves an expectation in the dispatcher; a
message that comes in is given to one expectation it matches. Which one that is depends on the order of
`pairs`, so a step names it. A session refers to its security object by its own number, and a session
that the script has not created yet is one for which nothing has been called.

The handshake is left out: its expectation reads frames of the control service that are not control
frames, and works on the SSL object only.
-/

namespace Atf
open Lua

variable {J : Type}

/-- The sessions, the `isSecuredSession` flag of each, and `SecurityManager.mobileSecurities`. -/
structure Fleet where
  sessions : Nat → Session
  isSecuredSession : Nat → Bool
  mobileSecurities : Table Nat Nat

namespace Fleet

def core (self : Fleet) (i : Nat) : Core := ⟨self.sessions i, self.mobileSecurities⟩

def setCore (self : Fleet) (i : Nat) (core : Core) : Fleet :=
  { self with
    sessions := Function.update self.sessions i core.session
    mobileSecurities := core.mobileSecurities }

/-- A session that is not secured is registered by `StartSecureService`. -/
def registerUnsecured (self : Fleet) (i : Nat) : Fleet :=
  if !self.isSecuredSession i then self.setCore i (self.core i).registerSessionSecurity else self

def registerSecureService (self : Fleet) (i service : Nat) : Fleet :=
  { self with
    sessions := Function.update self.sessions i
      { self.sessions i with encryptedServices := (self.sessions i).encryptedServices.set service true }
    isSecuredSession := Function.update self.isSecuredSession i true }

end Fleet

/-! ### Expectations -/

/-- What an expectation of a session waits for. -/
inductive Awaited
  | startRPC | startService (service : Nat) | startSecureService (service : Nat)
  | stopService (service : Nat) | stopRPC
deriving DecidableEq, Repr

def startSecureServiceAction (i service : Nat) (_ : ExpectationData) (data : Msg J) (w : Fleet) : Fleet :=
  if data.frameInfo == FRAME_INFO.START_SERVICE_ACK then w.registerSecureService i service else w

/-- The expectation of one session among all of them. -/
def Handler.ofSession (i : Nat) (self : Handler (Core × Unit) (Msg J)) : Handler Fleet (Msg J) where
  matchesData w data := self.matchesData (w.core i, ()) data
  exp := self.exp
  actions := self.actions.map fun action exp data w => w.setCore i (action exp data (w.core i, ())).1

/-- The expectation that the call returns, with its own action. -/
def Awaited.handler (i : Nat) (ts : Int) : Awaited → Handler Fleet (Msg J)
  | .startRPC => (startRPCExp ts).ofSession i
  | .startService service => (startServiceExp service ts).ofSession i
  | .startSecureService service =>
    { matchesData := fun w data => startServiceMatches service true (w.sessions i) data
      exp := (Expectation.new "StartService ACK" ts).validIf startServiceAck
      actions := [startSecureServiceAction i service] }
  | .stopService service => (stopServiceExp service ts).ofSession i
  | .stopRPC => (stopRPCExp ts).ofSession i

/-- An expectation in the dispatcher. -/
structure Pending (J : Type) where
  session : Nat
  awaited : Awaited
  ts : Int
  exp : Expectation (Msg J)

def Pending.handler (self : Pending J) : Handler Fleet (Msg J) :=
  { self.awaited.handler self.session self.ts with exp := self.exp }

/-! ### Steps -/

structure Sessions (J : Type) where
  fleet : Fleet
  pending : List (Pending J)

/-- A call of the script, a message that comes in, or the removal of an expectation that is done with.
`prepared` is whether the SSL context of the handshake could be created. -/
inductive SessionEvent (J : Type)
  | startRPC (i : Nat) (ts : Int)
  | startService (i service : Nat) (ts : Int)
  | startSecureService (i service : Nat) (ts : Int) (prepared : Bool)
  | stopService (i service : Nat) (ts : Int)
  | stopRPC (i : Nat) (ts : Int)
  | arrive (n : Nat) (data : Msg J) (timestamp : Int)
  | remove (n : Nat)

namespace Sessions

def expect (self : Sessions J) (i : Nat) (awaited : Awaited) (ts : Int) : Sessions J :=
  { self with pending := self.pending ++ [⟨i, awaited, ts, (awaited.handler i ts).exp⟩] }

/-- A call on the session that may raise, and the expectation it returns. -/
def call (self : Sessions J) (i : Nat) (awaited : Awaited) (ts : Int) : LuaM Core → Sessions J
  | .ok core => expect { self with fleet := self.fleet.setCore i core } i awaited ts
  | .error _ => self

def startSecureService (self : Sessions J) (i service : Nat) (ts : Int) (prepared : Bool) : Sessions J :=
  let registered := { self with fleet := self.fleet.registerUnsecured i }
  if !self.fleet.isSecuredSession i && !prepared then registered
  else
    let core := registered.fleet.core i
    registered.call i (.startSecureService service) ts (.ok { core with
      session := core.session.sendControl service FRAME_INFO.START_SERVICE true none })

/-- `RaiseEvent` for the expectation it finds; `validateAll` validates the others as well. -/
def arrive (checkAllValidations : Option Bool) (self : Sessions J) (n : Nat) (data : Msg J) (timestamp : Int) :
    Sessions J :=
  match self.pending[n]? with
  | none => self
  | some p =>
    if p.handler.matchesData self.fleet data then
      let (handler, fleet) := p.handler.raiseEvent checkAllValidations timestamp data self.fleet
      let others := self.pending.map fun q => { q with exp := q.exp.validate checkAllValidations timestamp }
      ⟨fleet, others.set n { p with exp := handler.exp }⟩
    else self

def step (checkAllValidations : Option Bool) (self : Sessions J) : SessionEvent J → Sessions J
  | .startRPC i ts => self.call i .startRPC ts (.ok ((self.fleet.core i).startRPC (ω := Unit) (J := J) ts).1)
  | .startService i service ts =>
    self.call i (.startService service) ts
      (.ok ((self.fleet.core i).startService (ω := Unit) (J := J) service ts).1)
  | .startSecureService i service ts prepared => self.startSecureService i service ts prepared
  | .stopService i service ts =>
    self.call i (.stopService service) ts
      (((self.fleet.core i).stopService (ω := Unit) (J := J) service ts).map (·.1))
  | .stopRPC i ts =>
    self.call i .stopRPC ts (((self.fleet.core i).stopRPC (ω := Unit) (J := J) ts).map (·.1))
  | .arrive n data timestamp => self.arrive checkAllValidations n data timestamp
  | .remove n => { self with pending := self.pending.eraseIdx n }

/-- No session is secured and none is registered. -/
def start (sessions : Nat → Session) : Sessions J :=
  ⟨⟨fun i => { sessions i with security := i }, fun _ => false, Table.empty⟩, []⟩

def run (checkAllValidations : Option Bool) (self : Sessions J) (events : List (SessionEvent J)) : Sessions J :=
  events.foldl (step checkAllValidations) self

end Sessions

end Atf
