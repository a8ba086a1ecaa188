import Atf.SecuredSessions
import Atf.Nack
import Atf.Lib.Run

/-!
# When a secured session is registered

The flag `isSecuredSession`, the session id and the table `mobileSecurities` are changed by different
actions, and none of them looks at the others: the action of `StopRPC` clears the entry and leaves the
flag, the action of `StartRPC` moves the session to another id and leaves the entry behind, and the
action of `StartSecureService` sets the flag whoever has the entry. `Pending.Allows` says when such an action
does no harm; every other step keeps the registration (`Same`, and `registerUnsecured_registered` for the one
that fills an entry). `registered_step_iff` is therefore exact, and with it the statement about runs.
-/

namespace Atf
open Lua

variable {J : Type} {checkAll : Option Bool}

namespace Fleet

/-- Every secured session has its own security object at its current id. -/
def Registered (w : Fleet) : Prop :=
  ∀ i, w.isSecuredSession i = true → w.mobileSecurities (w.sessions i).sessionId = some (w.sessions i).security

/-- The part of the state that `Registered` looks at is the same. -/
structure Same (w w' : Fleet) : Prop where
  secured : w'.isSecuredSession = w.isSecuredSession
  ids : ∀ i, (w'.sessions i).sessionId = (w.sessions i).sessionId
  own : ∀ i, (w'.sessions i).security = (w.sessions i).security
  table : w'.mobileSecurities = w.mobileSecurities

theorem Same.registered_iff {w w' : Fleet} (h : Same w w') : w'.Registered ↔ w.Registered := by
  unfold Registered
  simp only [h.secured, h.ids, h.own, h.table]

theorem setCore_same {w : Fleet} {i : Nat} {c : Core} (hid : c.session.sessionId = (w.sessions i).sessionId)
    (hown : c.session.security = (w.sessions i).security) (htable : c.mobileSecurities = w.mobileSecurities) :
    Same w (w.setCore i c) := by
  refine ⟨rfl, fun j => ?_, fun j => ?_, htable⟩
  · rcases eq_or_ne j i with rfl | hj
    · simpa [setCore] using hid
    · simp [setCore, hj]
  · rcases eq_or_ne j i with rfl | hj
    · simpa [setCore] using hown
    · simp [setCore, hj]

/-! ### The entry of an id -/

/-- An entry is only filled when it is free, so no secured session loses its own. -/
theorem registerUnsecured_registered {w : Fleet} (h : w.Registered) (i : Nat) :
    (w.registerUnsecured i).Registered := by
  unfold registerUnsecured
  split
  · rename_i hi
    cases hslot : w.mobileSecurities (w.sessions i).sessionId with
    | some owner =>
      refine (setCore_same ?_ ?_ ?_).registered_iff.mpr h <;>
        simp [Core.registerSessionSecurity, core, hslot]
    | none =>
      intro j hj
      have hji : j ≠ i := by
        rintro rfl
        simp [setCore] at hj
        simp [hj] at hi
      have hreg := h j hj
      have hne : (w.sessions j).sessionId ≠ (w.sessions i).sessionId := by
        intro he
        rw [he, hslot] at hreg
        cases hreg
      simpa [setCore, core, Core.registerSessionSecurity, hslot, hji, Table.set_of_ne _ _ hne] using hreg
  · exact h

theorem registerSecureService_iff {w : Fleet} (h : w.Registered) (i service : Nat) :
    (w.registerSecureService i service).Registered ↔
      w.mobileSecurities (w.sessions i).sessionId = some (w.sessions i).security := by
  constructor
  · intro h'
    have := h' i (by simp [registerSecureService])
    simpa [registerSecureService] using this
  · intro hi j hj
    rcases eq_or_ne j i with rfl | hji
    · simpa [registerSecureService] using hi
    · have hreg := h j (by simpa [registerSecureService, hji] using hj)
      simpa [registerSecureService, hji] using hreg

/-- Moving session `i` to another id. -/
theorem setCore_moved_iff {w : Fleet} (h : w.Registered) {i : Nat} {c : Core}
    (hown : c.session.security = (w.sessions i).security) (htable : c.mobileSecurities = w.mobileSecurities) :
    (w.setCore i c).Registered ↔
      (w.isSecuredSession i = true →
        w.mobileSecurities c.session.sessionId = some (w.sessions i).security) := by
  constructor
  · intro h' hi
    have := h' i hi
    simpa [setCore, hown, htable] using this
  · intro hi j hj
    rcases eq_or_ne j i with rfl | hji
    · simpa [setCore, hown, htable] using hi hj
    · simpa [setCore, hji, htable] using h j hj

/-- Clearing the entry of an id. -/
theorem setCore_cleared_iff {w : Fleet} (h : w.Registered) {i : Nat} {c : Core}
    (hid : c.session.sessionId = (w.sessions i).sessionId)
    (hown : c.session.security = (w.sessions i).security)
    (htable : c.mobileSecurities = w.mobileSecurities.erase (w.sessions i).sessionId) :
    (w.setCore i c).Registered ↔
      ∀ j, w.isSecuredSession j = true → (w.sessions j).sessionId ≠ (w.sessions i).sessionId := by
  have hsess : ∀ j, ((w.setCore i c).sessions j).sessionId = (w.sessions j).sessionId ∧
      ((w.setCore i c).sessions j).security = (w.sessions j).security := by
    intro j
    rcases eq_or_ne j i with rfl | hji
    · simp [setCore, hid, hown]
    · simp [setCore, hji]
  constructor
  · intro h' j hj he
    have := h' j hj
    rw [(hsess j).1, (hsess j).2, show (w.setCore i c).mobileSecurities = _ from htable, he,
      Table.erase_self] at this
    cases this
  · intro hne j hj
    rw [(hsess j).1, (hsess j).2, show (w.setCore i c).mobileSecurities = _ from htable,
      Table.erase_of_ne _ (hne j hj)]
    exact h j hj

end Fleet

/-! ### The actions -/

/-- The action of the expectation, given this message, keeps the secured sessions registered. -/
def Pending.Allows (p : Pending J) (w : Fleet) (data : Msg J) : Prop :=
  match p.awaited with
  | .startRPC => p.exp.status = some .FAILED ∨ (w.isSecuredSession p.session = true →
      w.mobileSecurities data.sessionId = some (w.sessions p.session).security)
  | .startSecureService _ => data.frameInfo = FRAME_INFO.START_SERVICE_ACK →
      w.mobileSecurities (w.sessions p.session).sessionId = some (w.sessions p.session).security
  | .stopRPC => ∀ j, w.isSecuredSession j = true →
      (w.sessions j).sessionId ≠ (w.sessions p.session).sessionId
  | _ => True

theorem startHeartbeat_security (s : Session) : s.startHeartbeat.security = s.security := by
  simp only [Session.startHeartbeat, Session.monitorStartHeartbeat]
  split_ifs <;> rfl

theorem startRPCAction_spec (e : ExpectationData) (data : Msg J) (c : Core) (he : e.status ≠ some .FAILED) :
    (startRPCAction e data c).session.sessionId = data.sessionId ∧
      (startRPCAction e data c).session.security = c.session.security ∧
      (startRPCAction e data c).mobileSecurities = c.mobileSecurities := by
  unfold startRPCAction
  rw [if_neg he]
  refine ⟨?_, ?_, rfl⟩
  · dsimp only
    split
    · exact (Session.startHeartbeat_ids _).1
    · rfl
  · dsimp only
    split
    · exact startHeartbeat_security _
    · rfl

theorem stopServiceAction_same (service : Nat) (e : ExpectationData) (data : Msg J) (w : Fleet) (i : Nat) :
    Fleet.Same w (w.setCore i (stopServiceAction service e data (w.core i))) := by
  unfold stopServiceAction
  split
  · exact Fleet.setCore_same rfl rfl rfl
  · exact Fleet.setCore_same rfl rfl rfl

/-- What a message does to the sessions, through the expectation it is given to. -/
def Pending.act (p : Pending J) (e : ExpectationData) (data : Msg J) (w : Fleet) : Fleet :=
  match p.awaited with
  | .startRPC => w.setCore p.session (startRPCAction e data (w.core p.session))
  | .startService _ => w
  | .startSecureService service => startSecureServiceAction p.session service e data w
  | .stopService service => w.setCore p.session (stopServiceAction service e data (w.core p.session))
  | .stopRPC => w.setCore p.session (stopRPCAction e data (w.core p.session))

theorem handler_action (p : Pending J) (e : ExpectationData) (data : Msg J) (w : Fleet) :
    p.handler.action e data w = p.act e data w := by
  unfold Pending.act
  cases hp : p.awaited with
  | startRPC | startService service | startSecureService service | stopService service | stopRPC =>
    simp only [Pending.handler, hp, Awaited.handler]
    rfl

theorem act_registered_iff {p : Pending J} {w : Fleet} (h : w.Registered) {e : ExpectationData}
    (he : e.status = p.exp.status) (data : Msg J) : (p.act e data w).Registered ↔ p.Allows w data := by
  unfold Pending.act Pending.Allows
  cases p.awaited with
  | startRPC =>
    by_cases hs : e.status = some .FAILED
    · have hs' : p.exp.status = some .FAILED := he ▸ hs
      simp only [startRPCAction, hs, hs', if_true, true_or, iff_true]
      exact (Fleet.setCore_same rfl rfl rfl).registered_iff.mpr h
    · obtain ⟨hid, hown, htable⟩ := startRPCAction_spec e data (w.core p.session) hs
      simp only [he ▸ hs, false_or]
      rw [Fleet.setCore_moved_iff h hown htable, hid]
  | startService service => exact ⟨fun _ => trivial, fun _ => h⟩
  | startSecureService service =>
    dsimp only
    unfold startSecureServiceAction
    split
    · rename_i hack
      rw [Fleet.registerSecureService_iff h]
      exact ⟨fun hi _ => hi, fun hi => hi (by simpa using hack)⟩
    · rename_i hack
      exact ⟨fun _ ha => absurd (by simpa using ha) hack, fun _ => h⟩
  | stopService service =>
    exact ⟨fun _ => trivial, fun _ => (stopServiceAction_same ..).registered_iff.mpr h⟩
  | stopRPC => exact Fleet.setCore_cleared_iff h rfl rfl rfl

/-! ### Steps and runs -/

namespace Sessions

/-- The step does not bring a secured session and its entry apart. -/
def Allowed (s : Sessions J) : SessionEvent J → Prop
  | .arrive n data _ => ∀ p, s.pending[n]? = some p → p.handler.matchesData s.fleet data = true →
      p.Allows s.fleet data
  | _ => True

theorem arrive_fleet {s : Sessions J} {n : Nat} {p : Pending J} (hn : s.pending[n]? = some p) {data : Msg J}
    (hm : p.handler.matchesData s.fleet data = true) (timestamp : Int) :
    (s.arrive checkAll n data timestamp).fleet =
      p.act (p.exp.occur checkAll (some data)).1.toExpectationData data s.fleet := by
  rw [← handler_action]
  simp only [arrive, hn, hm, if_true, Handler.raiseEvent]
  rfl

theorem arrive_registered_iff {s : Sessions J} (h : s.fleet.Registered) (n : Nat) (data : Msg J)
    (timestamp : Int) :
    (s.arrive checkAll n data timestamp).fleet.Registered ↔ s.Allowed (.arrive n data timestamp) := by
  cases hn : s.pending[n]? with
  | none =>
    have hsame : s.arrive checkAll n data timestamp = s := by simp [arrive, hn]
    rw [hsame]
    refine ⟨fun _ p hp _ => ?_, fun _ => h⟩
    rw [hn] at hp
    cases hp
  | some p =>
    by_cases hm : p.handler.matchesData s.fleet data = true
    · obtain ⟨hver, -⟩ := Expectation.occur_spec checkAll (some data) p.exp
      rw [arrive_fleet hn hm, act_registered_iff h hver.status data]
      constructor
      · intro ha q hq _
        rw [hn] at hq
        cases hq
        exact ha
      · intro ha
        exact ha p hn hm
    · have hsame : s.arrive checkAll n data timestamp = s := by simp [arrive, hn, hm]
      rw [hsame]
      refine ⟨fun _ q hq hmq => ?_, fun _ => h⟩
      rw [hn] at hq
      cases hq
      exact absurd hmq hm

theorem call_registered {s : Sessions J} (h : s.fleet.Registered) (i : Nat) (awaited : Awaited) (ts : Int)
    (c : LuaM Core)
    (hc : ∀ c', c = .ok c' → c'.session.sessionId = (s.fleet.sessions i).sessionId ∧
      c'.session.security = (s.fleet.sessions i).security ∧ c'.mobileSecurities = s.fleet.mobileSecurities) :
    (s.call i awaited ts c).fleet.Registered := by
  cases c with
  | error e => exact h
  | ok c =>
    obtain ⟨hid, hown, htable⟩ := hc c rfl
    exact (Fleet.setCore_same hid hown htable).registered_iff.mpr h

theorem startSecureService_registered {s : Sessions J} (h : s.fleet.Registered) (i service : Nat) (ts : Int)
    (prepared : Bool) : (s.startSecureService i service ts prepared).fleet.Registered := by
  have hr := Fleet.registerUnsecured_registered h i
  unfold startSecureService
  dsimp only
  split
  · exact hr
  · refine call_registered hr i _ ts _ ?_
    rintro c' hc'
    cases hc'
    exact ⟨rfl, rfl, rfl⟩

theorem controlStopService_frame {c c' : Core} {service : Nat} (h : c.controlStopService service = .ok c') :
    c'.session.sessionId = c.session.sessionId ∧ c'.session.security = c.session.security ∧
      c'.mobileSecurities = c.mobileSecurities := by
  unfold Core.controlStopService at h
  split at h
  · cases h
  · cases h
    exact ⟨rfl, rfl, rfl⟩

/-- The core that a stopping call leaves, without the expectation it returns. -/
theorem exists_of_map_fst {β : Type} {x : LuaM Core} {f : Core → Core} {exp : β} {c' : Core}
    (h : (x >>= fun core => pure (f core, exp)).map Prod.fst = .ok c') : ∃ core, x = .ok core ∧ f core = c' := by
  obtain ⟨res, hres, rfl⟩ := map_eq_ok.mp h
  obtain ⟨core, hcore, hres⟩ := bind_eq_ok.mp hres
  cases hres
  exact ⟨core, hcore, rfl⟩

theorem registered_step_iff {s : Sessions J} (h : s.fleet.Registered) (e : SessionEvent J) :
    (s.step checkAll e).fleet.Registered ↔ s.Allowed e := by
  cases e with
  | startRPC i ts =>
    refine ⟨fun _ => trivial, fun _ => call_registered h i _ ts _ ?_⟩
    rintro c' hc'
    cases hc'
    exact ⟨rfl, rfl, rfl⟩
  | startService i service ts =>
    refine ⟨fun _ => trivial, fun _ => call_registered h i _ ts _ ?_⟩
    rintro c' hc'
    cases hc'
    exact ⟨rfl, rfl, rfl⟩
  | startSecureService i service ts prepared =>
    exact ⟨fun _ => trivial, fun _ => startSecureService_registered h i service ts prepared⟩
  | stopService i service ts =>
    refine ⟨fun _ => trivial, fun _ => call_registered h i _ ts _ ?_⟩
    rintro c' hc'
    obtain ⟨core, hcore, rfl⟩ := exists_of_map_fst hc'
    exact controlStopService_frame hcore
  | stopRPC i ts =>
    refine ⟨fun _ => trivial, fun _ => call_registered h i _ ts _ ?_⟩
    rintro c' hc'
    obtain ⟨core, hcore, rfl⟩ := exists_of_map_fst hc'
    exact controlStopService_frame hcore
  | arrive n data timestamp => exact arrive_registered_iff h n data timestamp
  | remove n => exact ⟨fun _ => trivial, fun _ => h⟩

/-- Every step of the run is allowed in the state it finds. -/
def AllAllowed (checkAllValidations : Option Bool) (s : Sessions J) (events : List (SessionEvent J)) : Prop :=
  Run.Allows (step checkAllValidations) Allowed s events

/-- Over any order of calls and answers, the secured sessions are registered in every state reached
exactly if every step was allowed. -/
theorem secured_registered_iff (sessions : Nat → Session) (events : List (SessionEvent J)) :
    (∀ es, es <+: events → ((start sessions).run checkAll es).fleet.Registered) ↔
      (start sessions).AllAllowed checkAll events := by
  refine Run.forall_prefix_iff (I := fun s : Sessions J => s.fleet.Registered)
    (fun s e h => registered_step_iff h e) ?_ events
  intro i hi
  cases hi

end Sessions

/-! ### Stopping a secured session -/

namespace StoppedSession

def session : Session :=
  { sessionId := 0, hashCode := none, version := 5, messageId := 1, activateHeartbeat := true
    sendHeartbeatToSDL := true, ignoreHeartBeatAck := false, heartbeat_monitor := .new 7000, security := 0
    encryptedServices := Table.empty, sent := [] }

def answer (frameInfo : Nat) (encryption : Bool) : Msg Unit :=
  { version := 5, frameType := FRAME_TYPE.CONTROL_FRAME, encryption, serviceType := SERVICE_TYPE.RPC
    frameInfo, sessionId := 1, size := 0, messageId := 1, binaryData := [1, 2, 3, 4]
    decryptionStatus := if encryption then .SUCCESS else .NO_ENCRYPTION
    rpcType := none, rpcFunctionId := none, rpcJsonSize := none, rpcCorrelationId := none, payload := none }

/-- The session is started with id 1, its RPC service is secured, and it is stopped. -/
def events : List (SessionEvent Unit) :=
  [.startRPC 0 0, .arrive 0 (answer FRAME_INFO.START_SERVICE_ACK false) 1, .remove 0,
    .startSecureService 0 SERVICE_TYPE.RPC 2 true, .arrive 0 (answer FRAME_INFO.START_SERVICE_ACK true) 3,
    .remove 0, .stopRPC 0 4, .arrive 0 (answer FRAME_INFO.END_SERVICE_ACK false) 5]

def final : Sessions Unit := (Sessions.start fun _ => session).run none events

end StoppedSession

/-- The stopped session is still marked as secured, and its entry is gone. -/
theorem stopped_session_unregistered :
    StoppedSession.final.fleet.isSecuredSession 0 = true ∧
      (StoppedSession.final.fleet.sessions 0).sessionId = 1 ∧
      StoppedSession.final.fleet.mobileSecurities 1 = none ∧ ¬ StoppedSession.final.fleet.Registered := by
  have hsecured : StoppedSession.final.fleet.isSecuredSession 0 = true := by decide +kernel
  have hid : (StoppedSession.final.fleet.sessions 0).sessionId = 1 := by decide +kernel
  have hentry : StoppedSession.final.fleet.mobileSecurities 1 = none := by decide +kernel
  refine ⟨hsecured, hid, hentry, fun hr => ?_⟩
  have hreg := hr 0 hsecured
  rw [hid, hentry] at hreg
  cases hreg

end Atf
