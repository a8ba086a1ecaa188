import Atf.ResponseMatch

/-!
# Correlation ids on the wire (`mobile_session.lua`, `rpc_service.lua`)

Two calls of a session take correlation ids from one counter. `SendRPC` increments the counter and puts the new id in
the message; so the ids it encodes are new each time, and recorded under the same number. `MobileSession:Send` of a
message without an id has `CheckCorrelationID` take the id the counter stands at, which the last `SendRPC` may have
used, and the id is never put in the message: `rpcPayload` writes 0.
-/

namespace Atf
open Lua

/-- `MobileSession:Send` -/
def MobileSession.send (self : RpcSession) (env : RpcEnv) (message : OutMsg) : RpcSession :=
  let self := if message.serviceType = SERVICE_TYPE.RPC then self.checkCorrelationID env message else self
  self.send message

/-- An RPC message that brings no correlation id. -/
structure IdlessMessage where
  message : OutMsg
  service : message.serviceType = SERVICE_TYPE.RPC
  idless : message.rpcCorrelationId = none

/-- The correlation id in the data that `Compose` sends for the message, if it gets so far. -/
def encodedId (message : OutMsg) : Option Nat :=
  if hasToBuildBinaryHeader message then
    match rpcPayload message with
    | .ok data => (bytesToInt32 data 5).toOption
    | .error _ => none
  else none

theorem encodedId_spec {message : OutMsg} {w : Nat} (h : encodedId message = some w) :
    w = Bit32.norm (message.rpcCorrelationId.getD 0) ∧ message.rpcFunctionId.isSome = true := by
  unfold encodedId at h
  split at h
  · split at h
    · rename_i data hdata
      rw [bytesToInt32_correlationBytes (Bit32.norm_lt _) (correlationBytes_rpcPayload hdata)] at h
      cases h
      refine ⟨rfl, ?_⟩
      obtain ⟨rpcType, -, hdata⟩ := bind_eq_ok.mp hdata
      obtain ⟨rpcFunctionId, hfid, -⟩ := bind_eq_ok.mp hdata
      cases hsome : message.rpcFunctionId with
      | none =>
        rw [hsome] at hfid
        cases hfid
      | some fid => rfl
    · cases h
  · cases h

/-! ### The two calls -/

namespace RpcSession
variable {s : RpcSession} {env : RpcEnv}

/-- The message of `SendRPC`. -/
def requestMessage (s : RpcSession) (env : RpcEnv) (func : FunctionRef) (arguments : Value) (encrypt : Bool)
    (binaryData : Option Bytes) : OutMsg :=
  { version := s.version, encryption := encrypt, frameType := 1, serviceType := SERVICE_TYPE.RPC
    frameInfo := 0, sessionId := s.sessionId, messageId := s.messageId
    rpcType := some BINARY_RPC_TYPE.REQUEST, rpcFunctionId := functionIdOf env func
    rpcCorrelationId := some (s.correlationId + 1), payload := some (env.encode arguments), binaryData }

/-- The session when `SendRPC` opens the file. -/
def requested (s : RpcSession) (env : RpcEnv) (func : FunctionRef) (arguments : Value) (encrypt : Bool) : RpcSession :=
  { s with correlationId := s.correlationId + 1 }.checkCorrelationID env
    (s.requestMessage env func arguments encrypt none)

theorem sendRPC_eq (func : FunctionRef) (arguments : Value) (fileName : Option String) (encrypt : Bool) :
    s.sendRPC env func arguments fileName encrypt =
      (readFile env fileName).map fun binaryData =>
        ((s.requested env func arguments encrypt).send (s.requestMessage env func arguments encrypt binaryData),
          s.correlationId + 1) := by
  unfold sendRPC
  cases readFile env fileName with
  | error e => rfl
  | ok binaryData => rfl

/-- The message as the connection gets it. -/
def stamped (s : RpcSession) (message : OutMsg) : OutMsg :=
  { message with version := s.version, sessionId := s.sessionId, messageId := s.messageId + 1 }

theorem send_sent (message : OutMsg) : (s.send message).sent = s.sent ++ [s.stamped message] := rfl

/-- The ids in the map do not go beyond the counter. -/
theorem Bounded.ne_of_lt (hb : s.Bounded) {id : Int} (h : s.correlationId < id) : ∀ p ∈ s.corIdFuncMap, p.1 ≠ id := by
  intro p hp
  have := hb p hp
  omega

theorem get_eq_none_iff {id : Int} : s.corIdFuncMap.get id = none ↔ ∀ p ∈ s.corIdFuncMap, p.1 ≠ id := by
  refine List.lookup_eq_none_iff.trans (forall₂_congr fun p _ => ?_)
  rw [bne_iff_ne, ne_comm]

/-- A new id is recorded with the function of the message, if it has one. -/
theorem checkCorrelationID_new {m : OutMsg} {id : Int} (hid : m.rpcCorrelationId = some id)
    (hnew : ∀ p ∈ s.corIdFuncMap, p.1 ≠ id) :
    s.checkCorrelationID env m =
      { s with
        corIdFuncMap := s.corIdFuncMap ++ (m.rpcFunctionId.map fun fid => (id, functionOf env fid)).toList } := by
  unfold checkCorrelationID
  rw [hid]
  dsimp only
  rw [get_eq_none_iff.mpr hnew]
  cases hfid : m.rpcFunctionId with
  | none => simp
  | some fid =>
    dsimp only
    rw [Dict.set_of_forall_ne _ hnew]
    rfl

/-- A message without an id has that of the counter recorded, which then goes on. -/
theorem checkCorrelationID_idless (s : RpcSession) (env : RpcEnv) {m : OutMsg} (hid : m.rpcCorrelationId = none) :
    s.checkCorrelationID env m =
      { s with
        correlationId := s.correlationId + 1
        corIdFuncMap := if s.corIdFuncMap.get s.correlationId = none then
            s.corIdFuncMap ++ (m.rpcFunctionId.map fun fid => (s.correlationId, functionOf env fid)).toList
          else s.corIdFuncMap } := by
  unfold checkCorrelationID
  rw [hid]
  dsimp only
  cases hget : s.corIdFuncMap.get s.correlationId with
  | some func => rfl
  | none =>
    rw [if_pos rfl]
    cases hfid : m.rpcFunctionId with
    | none => simp
    | some fid =>
      dsimp only
      rw [Dict.set_of_forall_ne _ (get_eq_none_iff.mp hget)]
      rfl

/-- A call of `SendRPC` takes the next id, and records it if the function is known. -/
theorem requested_spec (env : RpcEnv) (hb : s.Bounded) (func : FunctionRef) (arguments : Value) (encrypt : Bool) :
    s.requested env func arguments encrypt =
      { s with
        correlationId := s.correlationId + 1
        corIdFuncMap := s.corIdFuncMap ++
          ((functionIdOf env func).map fun fid => (s.correlationId + 1, functionOf env fid)).toList } := by
  have hnew : ∀ p ∈ s.corIdFuncMap, p.1 ≠ s.correlationId + 1 := hb.ne_of_lt (by omega)
  exact checkCorrelationID_new (m := s.requestMessage env func arguments encrypt none) rfl hnew

/-- The id under which a function was recorded between two states. -/
def recordedId (before after : RpcSession) : Option Int :=
  ((after.corIdFuncMap.filter fun p => (before.corIdFuncMap.get p.1).isNone).head?).map Prod.fst

theorem filter_recorded : s.corIdFuncMap.filter (fun p => (s.corIdFuncMap.get p.1).isNone) = [] := by
  rw [List.filter_eq_nil_iff]
  intro p hp hnone
  exact get_eq_none_iff.mp (Option.isNone_iff_eq_none.mp hnone) p hp rfl

theorem recordedId_same {after : RpcSession} (hafter : after.corIdFuncMap = s.corIdFuncMap) :
    recordedId s after = none := by
  rw [recordedId, hafter, filter_recorded]
  rfl

theorem recordedId_append {after : RpcSession} {id : Int} {func : FunctionRef} (hnew : ∀ p ∈ s.corIdFuncMap, p.1 ≠ id)
    (hafter : after.corIdFuncMap = s.corIdFuncMap ++ [(id, func)]) : recordedId s after = some id := by
  rw [recordedId, hafter, List.filter_append, filter_recorded]
  simp [get_eq_none_iff.mpr hnew]

/-- A message without an id is recorded under that of the counter, if at all. -/
theorem recordedId_idless {m : OutMsg} (hid : m.rpcCorrelationId = none) {id : Int}
    (h : recordedId s (s.checkCorrelationID env m) = some id) : id = s.correlationId := by
  have hspec := congrArg corIdFuncMap (checkCorrelationID_idless s env hid)
  dsimp only at hspec
  cases hfid : m.rpcFunctionId with
  | none =>
    have hsame : (s.checkCorrelationID env m).corIdFuncMap = s.corIdFuncMap := by
      rw [hspec, hfid]
      simp
    rw [recordedId_same hsame] at h
    cases h
  | some fid =>
    split at hspec
    · rename_i hget
      rw [hfid] at hspec
      rw [recordedId_append (get_eq_none_iff.mp hget) hspec] at h
      exact (Option.some.inj h).symm
    · rw [recordedId_same hspec] at h
      cases h

theorem correlationId_requested (func : FunctionRef) (arguments : Value) (encrypt : Bool) :
    (s.requested env func arguments encrypt).correlationId = s.correlationId + 1 := by
  unfold requested checkCorrelationID
  dsimp only [requestMessage]
  split
  · rfl
  · rfl

end RpcSession

/-! ### Runs -/

inductive WireEvent
  | sendRPC (func : FunctionRef) (arguments : Value) (fileName : Option String) (encrypt : Bool)
  | send (message : IdlessMessage)

/-- The session, and each message given to the connection with the id under which its function was recorded. -/
structure WireHistory where
  session : RpcSession
  calls : List (OutMsg × Option Int)

namespace WireHistory
variable {env : RpcEnv} {h : WireHistory}

def start (session : RpcSession) : WireHistory := ⟨session, []⟩

/-- The history after a call that leaves the session so. -/
def after (h : WireHistory) (session : RpcSession) : WireHistory :=
  { session
    calls := h.calls ++ (session.sent.drop h.session.sent.length).map fun m => (m, h.session.recordedId session) }

/-- One call; a file that cannot be read ends `SendRPC` before it sends. -/
def step (env : RpcEnv) (h : WireHistory) : WireEvent → WireHistory
  | .sendRPC func arguments fileName encrypt =>
    match h.session.sendRPC env func arguments fileName encrypt with
    | .ok (session, _) => h.after session
    | .error _ => h.after (h.session.requested env func arguments encrypt)
  | .send message => h.after (MobileSession.send h.session env message.message)

theorem step_sendRPC (func : FunctionRef) (arguments : Value) (fileName : Option String) (encrypt : Bool) :
    h.step env (.sendRPC func arguments fileName encrypt) =
      match RpcSession.readFile env fileName with
      | .ok binaryData => h.after ((h.session.requested env func arguments encrypt).send
          (h.session.requestMessage env func arguments encrypt binaryData))
      | .error _ => h.after (h.session.requested env func arguments encrypt) := by
  rw [step, RpcSession.sendRPC_eq]
  cases RpcSession.readFile env fileName with
  | error e => rfl
  | ok binaryData => rfl

theorem step_send (message : IdlessMessage) :
    h.step env (.send message) =
      h.after ((h.session.checkCorrelationID env message.message).send message.message) := by
  rw [step, MobileSession.send, if_pos message.service]

theorem calls_after_send {s : RpcSession} (message : OutMsg) (hsent : s.sent = h.session.sent) :
    (h.after (s.send message)).calls = h.calls ++ [(s.stamped message, h.session.recordedId s)] := by
  rw [after, RpcSession.send_sent, hsent, List.drop_left]
  rfl

/-- The ids on the wire, in the order of the messages. -/
def wireIds (h : WireHistory) : List Nat := h.calls.filterMap fun call => encodedId call.1

/-- No id is on the wire twice, and each is the one under which the function of its message was recorded. -/
structure Unique (h : WireHistory) : Prop where
  distinct : h.wireIds.Nodup
  recorded : ∀ m r w, (m, r) ∈ h.calls → encodedId m = some w → ∃ id, r = some id ∧ w = Bit32.norm id

/-- A call that puts an id of its own on the wire: `SendRPC`, or a message without a header for an id. -/
def KeepsIds : WireEvent → Prop
  | .sendRPC _ _ _ _ => True
  | .send message => encodedId message.message = none

/-- What holds after calls that keep the ids, on a session whose counter was at `first`: the ids on the wire grow and
are recorded. -/
structure Grows (first : Int) (h : WireHistory) : Prop where
  bounded : h.session.Bounded
  le : first ≤ h.session.correlationId
  ids : ∃ ids : List Int, h.wireIds = ids.map Bit32.norm ∧ ids.Pairwise (· < ·) ∧
    ∀ id ∈ ids, first < id ∧ id ≤ h.session.correlationId
  recorded : ∀ m r w, (m, r) ∈ h.calls → encodedId m = some w → ∃ id, r = some id ∧ w = Bit32.norm id

namespace Grows
variable {first : Int}

/-- Ids that grow up to `n` go on growing with a later one. -/
theorem growing_concat {ids : List Int} {n n' : Int} (hpairs : ids.Pairwise (· < ·))
    (hrange : ∀ id ∈ ids, first < id ∧ id ≤ n) (hfirst : first ≤ n) (hlt : n < n') :
    (ids ++ [n']).Pairwise (· < ·) ∧ ∀ id ∈ ids ++ [n'], first < id ∧ id ≤ n' := by
  constructor
  · refine List.pairwise_append.mpr ⟨hpairs, List.pairwise_singleton _ _, fun id hmem id' hmem' => ?_⟩
    have := hrange id hmem
    rw [List.mem_singleton.mp hmem']
    omega
  · intro id hmem
    rcases List.mem_append.mp hmem with hmem | hmem
    · have := hrange id hmem
      omega
    · rw [List.mem_singleton.mp hmem]
      omega

/-- A call that takes the next id and gives the connection at most one message, with that id. -/
theorem after (hg : h.Grows first) {session : RpcSession} (hb : session.Bounded)
    (hcount : session.correlationId = h.session.correlationId + 1) (new : Option OutMsg)
    (hsent : session.sent = h.session.sent ++ new.toList)
    (hnew : ∀ m w, new = some m → encodedId m = some w →
      w = Bit32.norm session.correlationId ∧ h.session.recordedId session = some session.correlationId) :
    (h.after session).Grows first := by
  have hcalls : (h.after session).calls = h.calls ++ new.toList.map fun m => (m, h.session.recordedId session) := by
    rw [WireHistory.after, hsent, List.drop_left]
  have hwire : (h.after session).wireIds = h.wireIds ++ (new.bind encodedId).toList := by
    rw [wireIds, hcalls, List.filterMap_append]
    cases new with
    | none => rfl
    | some m => cases hid : encodedId m <;> simp [hid, wireIds]
  have hle := hg.le
  obtain ⟨ids, hids, hpairs, hrange⟩ := hg.ids
  refine ⟨hb, ?_, ?_, ?_⟩
  · show first ≤ session.correlationId
    omega
  · show ∃ ids : List Int, (h.after session).wireIds = ids.map Bit32.norm ∧ ids.Pairwise (· < ·) ∧
      ∀ id ∈ ids, first < id ∧ id ≤ session.correlationId
    rw [hwire]
    cases hid : new.bind encodedId with
    | none =>
      refine ⟨ids, by rw [hids]; exact List.append_nil _, hpairs, fun id hmem => ?_⟩
      have := hrange id hmem
      omega
    | some w =>
      obtain ⟨m, hm, hw⟩ := Option.bind_eq_some_iff.mp hid
      obtain ⟨rfl, -⟩ := hnew m w hm hw
      refine ⟨ids ++ [session.correlationId], ?_, growing_concat hpairs hrange hle (by omega)⟩
      rw [hids, List.map_append]
      rfl
  · intro m r w hmem hw
    rw [hcalls] at hmem
    rcases List.mem_append.mp hmem with hmem | hmem
    · exact hg.recorded m r w hmem hw
    · obtain ⟨m', hm', heq⟩ := List.mem_map.mp hmem
      cases heq
      obtain ⟨hnorm, hrecorded⟩ := hnew m w (Option.mem_toList.mp hm') hw
      exact ⟨_, hrecorded, hnorm⟩

/-- The same, for a message that is sent once its id is taken. -/
theorem afterSend (hg : h.Grows first) {s : RpcSession} (message : OutMsg) (hb : s.Bounded)
    (hcount : s.correlationId = h.session.correlationId + 1) (hsent : s.sent = h.session.sent)
    (hnew : ∀ w, encodedId message = some w →
      w = Bit32.norm s.correlationId ∧ h.session.recordedId s = some s.correlationId) :
    (h.after (s.send message)).Grows first := by
  refine hg.after hb hcount (some (s.stamped message)) ?_ ?_
  · rw [RpcSession.send_sent, hsent]
    rfl
  · rintro m w ⟨⟩ hw
    exact hnew w hw

theorem bounded_requested (env : RpcEnv) (hg : h.Grows first) (func : FunctionRef) (arguments : Value)
    (encrypt : Bool) :
    (h.session.requested env func arguments encrypt).Bounded := by
  rw [RpcSession.requested_spec env hg.bounded]
  intro p hp
  rcases List.mem_append.mp hp with hp | hp
  · have := hg.bounded p hp
    dsimp only
    omega
  · obtain ⟨fid, -, rfl⟩ := Option.map_eq_some_iff.mp (Option.mem_toList.mp hp)
    exact Int.le_refl _

theorem sendRPC (hg : h.Grows first) (func : FunctionRef) (arguments : Value) (fileName : Option String)
    (encrypt : Bool) : (h.step env (.sendRPC func arguments fileName encrypt)).Grows first := by
  have hspec := RpcSession.requested_spec env hg.bounded func arguments encrypt
  have hb := hg.bounded_requested env func arguments encrypt
  have hsent : (h.session.requested env func arguments encrypt).sent = h.session.sent := by rw [hspec]
  have hcount : (h.session.requested env func arguments encrypt).correlationId = h.session.correlationId + 1 := by
    rw [hspec]
  rw [step_sendRPC]
  cases RpcSession.readFile env fileName with
  | error e =>
    refine hg.after hb hcount none ?_ nofun
    rw [hsent]
    exact (List.append_nil _).symm
  | ok binaryData =>
    refine hg.afterSend _ hb hcount hsent fun w hw => ?_
    obtain ⟨hnorm, hfid⟩ := encodedId_spec hw
    obtain ⟨fid, hfid⟩ := Option.isSome_iff_exists.mp hfid
    have hfid : RpcSession.functionIdOf env func = some fid := hfid
    have hmap : (h.session.requested env func arguments encrypt).corIdFuncMap =
        h.session.corIdFuncMap ++ [(h.session.correlationId + 1, RpcSession.functionOf env fid)] := by
      rw [hspec, hfid]
      rfl
    have hnew : ∀ p ∈ h.session.corIdFuncMap, p.1 ≠ h.session.correlationId + 1 := hg.bounded.ne_of_lt (by omega)
    rw [hcount]
    exact ⟨hnorm, RpcSession.recordedId_append hnew hmap⟩

theorem send (hg : h.Grows first) {message : IdlessMessage} (hnone : encodedId message.message = none) :
    (h.step env (.send message)).Grows first := by
  have hspec := RpcSession.checkCorrelationID_idless h.session env message.idless
  rw [step_send]
  refine hg.afterSend _ ?_ (by rw [hspec]) (by rw [hspec]) fun w hw => ?_
  · rw [hspec]
    intro p hp
    show p.1 ≤ h.session.correlationId + 1
    dsimp only at hp
    split at hp
    · rcases List.mem_append.mp hp with hp | hp
      · have := hg.bounded p hp
        omega
      · obtain ⟨fid, -, rfl⟩ := Option.map_eq_some_iff.mp (Option.mem_toList.mp hp)
        dsimp only
        omega
    · have := hg.bounded p hp
      omega
  · rw [hnone] at hw
    cases hw

theorem step (hg : h.Grows first) {e : WireEvent} (he : KeepsIds e) : (h.step env e).Grows first := by
  cases e with
  | sendRPC func arguments fileName encrypt => exact hg.sendRPC func arguments fileName encrypt
  | send message => exact hg.send he

theorem start {session : RpcSession} (hmap : session.corIdFuncMap = []) :
    (start session).Grows session.correlationId := by
  refine ⟨?_, Int.le_refl _, ⟨[], rfl, .nil, nofun⟩, nofun⟩
  intro p hp
  rw [WireHistory.start, hmap] at hp
  cases hp

/-- Ids that grow within `2 ^ 32` differ on the wire. -/
theorem unique (hg : h.Grows first) (hcount : h.session.correlationId ≤ first + 2 ^ 32) : h.Unique := by
  refine ⟨?_, hg.recorded⟩
  obtain ⟨ids, hids, hpairs, hrange⟩ := hg.ids
  rw [hids]
  refine List.Nodup.map_on (fun id hid id' hid' heq => ?_) (hpairs.imp fun hlt => Int.ne_of_lt hlt)
  have := hrange id hid
  have := hrange id' hid'
  unfold Bit32.norm at heq
  omega

end Grows

theorem correlationId_step (e : WireEvent) :
    (h.step env e).session.correlationId = h.session.correlationId + 1 := by
  cases e with
  | sendRPC func arguments fileName encrypt =>
    rw [step_sendRPC]
    cases RpcSession.readFile env fileName with
    | error e => exact RpcSession.correlationId_requested ..
    | ok binaryData => exact RpcSession.correlationId_requested ..
  | send message =>
    rw [step_send]
    exact congrArg RpcSession.correlationId (RpcSession.checkCorrelationID_idless h.session env message.idless)

theorem correlationId_foldl (events : List WireEvent) :
    (events.foldl (step env) h).session.correlationId = h.session.correlationId + events.length := by
  induction events generalizing h with
  | nil => exact (Int.add_zero _).symm
  | cons e events ih =>
    rw [List.foldl_cons, ih, correlationId_step, List.length_cons]
    omega

/-- A message without an id is on the wire with the id 0, and not recorded under it. -/
theorem keepsIds_of_unique {e : WireEvent} (hpos : 0 < h.session.correlationId)
    (hlt : h.session.correlationId < 2 ^ 32) (hu : (h.step env e).Unique) : KeepsIds e := by
  cases e with
  | sendRPC func arguments fileName encrypt => trivial
  | send message =>
    by_contra hencoded
    obtain ⟨w, hw⟩ := Option.ne_none_iff_exists'.mp hencoded
    have hmem : ((h.session.checkCorrelationID env message.message).stamped message.message,
        h.session.recordedId (h.session.checkCorrelationID env message.message)) ∈
          (h.step env (.send message)).calls := by
      have hspec := RpcSession.checkCorrelationID_idless h.session env message.idless
      have hsent : (h.session.checkCorrelationID env message.message).sent = h.session.sent := by rw [hspec]
      rw [step_send, calls_after_send _ hsent]
      exact List.mem_append_right _ List.mem_cons_self
    obtain ⟨id, hrecorded, hnorm⟩ := hu.recorded _ _ w hmem hw
    obtain ⟨hzero, -⟩ := encodedId_spec hw
    rw [message.idless, Option.getD_none] at hzero
    rw [RpcSession.recordedId_idless message.idless hrecorded] at hnorm
    unfold Bit32.norm at hzero hnorm
    omega

theorem grows_foldl {first : Int} {events : List WireEvent} (hg : h.Grows first) (he : ∀ e ∈ events, KeepsIds e) :
    (events.foldl (step env) h).Grows first := by
  induction events generalizing h with
  | nil => exact hg
  | cons e events ih =>
    exact ih (hg.step (he e List.mem_cons_self)) fun e' he' => he e' (List.mem_cons_of_mem e he')

/-- On a new session, the ids on the wire are distinct and those recorded in every state of a run of up to `2 ^ 32`
calls, if no call is a `Send` that puts an id on the wire; and shorter runs with such a call have a state in which they
are not. -/
theorem wire_ids_unique (env : RpcEnv) (session : RpcSession) (hfirst : session.correlationId = 1)
    (hmap : session.corIdFuncMap = []) (events : List WireEvent) :
    (events.length ≤ 2 ^ 32 → (∀ e ∈ events, KeepsIds e) →
      ∀ es, es <+: events → (es.foldl (step env) (start session)).Unique) ∧
    (events.length < 2 ^ 32 - 1 → (∀ es, es <+: events → (es.foldl (step env) (start session)).Unique) →
      ∀ e ∈ events, KeepsIds e) := by
  have hcount (es : List WireEvent) : (es.foldl (step env) (start session)).session.correlationId = 1 + es.length := by
    rw [correlationId_foldl, WireHistory.start, hfirst]
  constructor
  · intro hlen hkeeps es hes
    have hshort := hes.length_le
    refine (grows_foldl (.start hmap) fun e he => hkeeps e (hes.subset he)).unique ?_
    rw [hcount, hfirst]
    omega
  · intro hlen hall e he
    obtain ⟨es, post, rfl⟩ := List.append_of_mem he
    have hu := hall (es ++ [e]) ⟨post, by simp⟩
    rw [List.foldl_append, List.foldl_cons, List.foldl_nil] at hu
    rw [List.length_append, List.length_cons] at hlen
    refine keepsIds_of_unique ?_ ?_ hu
    · rw [hcount]
      omega
    · rw [hcount]
      omega

namespace WireSample

/-- A session as it is constructed. -/
def newSession : RpcSession := { RpcSample.session with correlationId := 1 }

/-- A request of `Show` that the script has put together. -/
def showMessage : IdlessMessage where
  message :=
    { version := 2, encryption := false, frameType := 1, serviceType := SERVICE_TYPE.RPC, frameInfo := 0, sessionId := 1
      messageId := 0, rpcType := some BINARY_RPC_TYPE.REQUEST, rpcFunctionId := some 13, rpcCorrelationId := none
      payload := some [], binaryData := none }
  service := rfl
  idless := rfl

def requests : List WireEvent :=
  [.sendRPC (.name "Show") (.table []) none false, .sendRPC (.name "Show") (.table []) none false]

end WireSample

open WireSample in
theorem wire_ids_unique_requests :
    (requests.foldl (step RpcSample.mobileEnv) (start newSession)).wireIds = [2, 3] ∧
      (requests.foldl (step RpcSample.mobileEnv) (start newSession)).Unique := by
  refine ⟨by decide +kernel, ?_⟩
  refine (wire_ids_unique RpcSample.mobileEnv newSession rfl rfl requests).1 (by decide) ?_ requests
    (List.prefix_refl _)
  intro e he
  simp only [requests, List.mem_cons, List.not_mem_nil, or_false, or_self] at he
  rw [he]
  trivial

open WireSample in
/-- Two messages without an id are sent under 0 and recorded under 1 and 2; after a `SendRPC` the id is not recorded at
all, as it is taken. -/
theorem idless_messages_clash :
    (([.send showMessage, .send showMessage].foldl (step RpcSample.mobileEnv) (start newSession)).wireIds = [0, 0] ∧
      ([.send showMessage, .send showMessage].foldl (step RpcSample.mobileEnv) (start newSession)).calls.map Prod.snd =
        [some 1, some 2]) ∧
    ([.sendRPC (.name "Show") (.table []) none false, .send showMessage].foldl (step RpcSample.mobileEnv)
      (start newSession)).calls.map Prod.snd = [some 2, none] ∧
    ¬ ([.send showMessage, .send showMessage].foldl (step RpcSample.mobileEnv) (start newSession)).Unique := by
  refine ⟨by decide +kernel, by decide +kernel, fun hu => ?_⟩
  have hdistinct := hu.distinct
  revert hdistinct
  decide +kernel

end WireHistory

end Atf
