import Atf.DispatcherRun
import Atf.HmiResponse

/-!
# Requests to SDL and their responses (`hmi_connection.lua`, `connecttest.lua`)

`SendRequest` and `SendResponse` both count `requestId` up. An expected response is any message with the id
of the request, and an expected call or notification any message with its method; both are events of level
2 on the same connection. So a request of SDL's own that carries the id, or the method, is a match as well.
`created` are the events in the order in which they were made: an event and its expectation have the number
of their place in it.
-/

namespace Atf
open Lua

abbrev HmiData := Dict Key Value

/-- `data._technical and data._technical.isFrame`, for a `_technical` that is a table or missing -/
def HmiData.isFrame (data : HmiData) : Bool :=
  match index data (.str "_technical") with
  | .table technical => truthy (index technical (.str "isFrame"))
  | _ => false

/-- The messages of the HMI, as the tables that are encoded; each has `jsonrpc = "2.0"`. -/
inductive HmiOutput
  | request (id : Nat) (method : String) (params : Value)
  | notification (method : String) (params : Value)
  | response (id : Value) (result : Dict Key Value)
  | error (id method : Value) (code : Option Int) (message : Value)

def HmiOutput.requestId : HmiOutput → Option Nat
  | .request id _ _ => some id
  | _ => none

structure HmiConnection where
  requestId : Nat
  sent : List HmiOutput

namespace HmiConnection

def new : HmiConnection := ⟨0, []⟩

def Send (self : HmiConnection) (message : HmiOutput) : HmiConnection := { self with sent := self.sent ++ [message] }

def SendRequest (self : HmiConnection) (methodName : String) (params : Value) : Nat × HmiConnection :=
  (self.requestId + 1,
    { self with requestId := self.requestId + 1 }.Send (.request (self.requestId + 1) methodName params))

def SendNotification (self : HmiConnection) (methodName : String) (params : Value) : HmiConnection :=
  self.Send (.notification methodName params)

/-- The parameters are put beside the method and the code, and may replace them. -/
def responseResult (resultCodes : Table String Int) (methodName : Value) (code : String)
    (params : Dict Key Value) : Dict Key Value :=
  let result := match methodName with
    | .nil => []
    | name => [(Key.str "method", name)]
  let result := match resultCodes code with
    | some c => Dict.set result (.str "code") (.num c)
    | none => result
  params.foldl (fun result p => Dict.set result p.1 p.2) result

def SendResponse (self : HmiConnection) (resultCodes : Table String Int) (id methodName : Value) (code : String)
    (params : Dict Key Value) : HmiConnection :=
  { self with requestId := self.requestId + 1 }.Send
    (.response id (responseResult resultCodes methodName code params))

def SendError (self : HmiConnection) (resultCodes : Table String Int) (id methodName : Value) (code : String)
    (errorMessage : Value) : HmiConnection :=
  self.Send (.error id methodName (resultCodes code) errorMessage)

end HmiConnection

/-! ### Expectations of the HMI connection -/

/-- The events of `EXPECT_HMIRESPONSE`, and of `EXPECT_HMICALL` and `EXPECT_HMINOTIFICATION`. -/
inductive HmiAwaited
  | response (id : Nat)
  | method (name : String)
deriving DecidableEq

namespace HmiAwaited

def matchesData : HmiAwaited → HmiData → Bool
  | .response id, data => (index data (.str "id")).rawEqual (.num id)
  | .method name, data => (index data (.str "method")).rawEqual (.str name)

def object (self : HmiAwaited) : EventObject HmiData := ⟨2, self.matchesData⟩

end HmiAwaited

structure HmiWorld where
  connection : HmiConnection
  dispatch : DispatcherState HmiData
  created : List HmiAwaited

inductive HmiCall
  | sendRequest (methodName : String) (params : Value)
  | sendNotification (methodName : String) (params : Value)
  | sendResponse (id methodName : Value) (code : String) (params : Dict Key Value)
  | sendError (id methodName : Value) (code : String) (errorMessage : Value)
  | expect (event : HmiAwaited) (exp : Expectation HmiData)
  | removeEvent (event : Nat)
  | clearEvents
  | input (order : Pairs Nat Nat) (data : HmiData)
  | finish (connections : Pairs Nat Pool) (order : Pairs Nat Nat) (timestamp : Int)

def HmiCall.makes : HmiCall → List HmiAwaited
  | .expect event _ => [event]
  | _ => []

namespace HmiWorld

/-- The number of the HMI connection in the dispatcher. -/
def hmiConnection : Nat := 0

/-- The calls of the dispatcher. -/
def dispatched (self : HmiWorld) : HmiCall → List (DispatcherCall HmiData)
  | .sendRequest .. | .sendNotification .. | .sendResponse .. | .sendError .. => []
  | .expect event exp =>
    [.event self.created.length event.object, .expectation self.created.length exp,
      .addEvent hmiConnection self.created.length self.created.length]
  | .removeEvent event => [.removeEvent hmiConnection event]
  | .clearEvents => [.clearEvents]
  | .input order data => [.raiseEvent order hmiConnection data]
  | .finish connections order timestamp => [.finish connections order timestamp]

def send (resultCodes : Table String Int) (self : HmiConnection) : HmiCall → HmiConnection
  | .sendRequest methodName params => (self.SendRequest methodName params).2
  | .sendNotification methodName params => self.SendNotification methodName params
  | .sendResponse id methodName code params => self.SendResponse resultCodes id methodName code params
  | .sendError id methodName code errorMessage => self.SendError resultCodes id methodName code errorMessage
  | _ => self

def step (resultCodes : Table String Int) (checkAllValidations : Option Bool) (self : HmiWorld) (call : HmiCall) :
    LuaM HmiWorld := do
  let step := DispatcherState.step HmiData.isFrame checkAllValidations
  let dispatch ← (self.dispatched call).foldlM step self.dispatch
  return ⟨send resultCodes self.connection call, dispatch, self.created ++ call.makes⟩

/-- The HMI connection has been added to the dispatcher, and nothing is expected. -/
def start (exps : Nat → Expectation HmiData) : HmiWorld where
  connection := .new
  dispatch := { DispatcherState.new (fun _ => ⟨2, fun _ => false⟩) exps with
    dispatcher := Dispatcher.new.AddConnection hmiConnection }
  created := []

/-- No response is expected twice. -/
def ExpectsOnce (self : HmiWorld) : HmiCall → Prop
  | .expect (.response id) _ => .response id ∉ self.created
  | _ => True

variable {resultCodes : Table String Int} {checkAllValidations : Option Bool} {w w' : HmiWorld} {call : HmiCall}
  {r : Registry HmiData} {exps : Nat → Expectation HmiData}

/-! ### Ids -/

/-- The ids of the requests that were sent grow, up to `requestId`. -/
structure Counted (c : HmiConnection) : Prop where
  increasing : (c.sent.filterMap HmiOutput.requestId).Pairwise (· < ·)
  bound : ∀ id ∈ c.sent.filterMap HmiOutput.requestId, id ≤ c.requestId

theorem Counted.other {c : HmiConnection} (h : Counted c) {message : HmiOutput} (hm : message.requestId = none)
    {requestId : Nat} (hle : c.requestId ≤ requestId) : Counted ⟨requestId, c.sent ++ [message]⟩ := by
  have heq : (c.sent ++ [message]).filterMap HmiOutput.requestId = c.sent.filterMap HmiOutput.requestId := by
    rw [List.filterMap_append, List.filterMap_cons_none hm, List.filterMap_nil, List.append_nil]
  constructor
  · rw [heq]
    exact h.increasing
  · rw [heq]
    exact fun id hid => (h.bound id hid).trans hle

theorem Counted.send {c : HmiConnection} (h : Counted c) (call : HmiCall) : Counted (send resultCodes c call) := by
  cases call with
  | sendRequest methodName params =>
    have heq : (c.SendRequest methodName params).2.sent.filterMap HmiOutput.requestId =
        c.sent.filterMap HmiOutput.requestId ++ [c.requestId + 1] := by
      simp [HmiConnection.SendRequest, HmiConnection.Send, HmiOutput.requestId]
    constructor
    · show ((c.SendRequest methodName params).2.sent.filterMap HmiOutput.requestId).Pairwise (· < ·)
      rw [heq, List.pairwise_append]
      refine ⟨h.increasing, List.pairwise_singleton _ _, fun id hid id' hid' => ?_⟩
      rw [List.mem_singleton.mp hid']
      exact Nat.lt_succ_of_le (h.bound id hid)
    · show ∀ id ∈ (c.SendRequest methodName params).2.sent.filterMap HmiOutput.requestId, id ≤ c.requestId + 1
      rw [heq]
      intro id hid
      rcases List.mem_append.mp hid with hid | hid
      · exact Nat.le_succ_of_le (h.bound id hid)
      · exact (List.mem_singleton.mp hid).le
  | sendResponse => exact h.other rfl (Nat.le_succ _)
  | sendNotification | sendError => exact h.other rfl (Nat.le_refl _)
  | expect | removeEvent | clearEvents | input | finish => exact h

theorem step_eq_ok (hs : w.step resultCodes checkAllValidations call = .ok w') : ∃ dispatch,
    (w.dispatched call).foldlM (DispatcherState.step HmiData.isFrame checkAllValidations) w.dispatch =
        .ok dispatch ∧
      w' = ⟨send resultCodes w.connection call, dispatch, w.created ++ call.makes⟩ := by
  obtain ⟨dispatch, hd, hs⟩ := bind_eq_ok.mp hs
  cases hs
  exact ⟨dispatch, hd, rfl⟩

/-! ### The events of the connection -/

/-- What the registry of the dispatcher holds: an event of the connection is the one that was created under
its number, on level 2 and with the expectation of that number. -/
structure OwnEvents (w : HmiWorld) (r : Registry HmiData) : Prop where
  refines : Refines w.dispatch r
  connected : hmiConnection ∈ r.connections
  own : ∀ c e x, r.handler (c, e) = some x → c = hmiConnection ∧ x = e ∧ e < w.created.length
  events : ∀ e event, w.created[e]? = some event → r.events e = event.object
  level : ∀ e, r.level e = 2

theorem OwnEvents.start (exps : Nat → Expectation HmiData) :
    OwnEvents (start exps) ((Registry.new fun _ => ⟨2, fun _ => false⟩).step (.addConnection hmiConnection)) where
  refines := (Refines.new _ exps).addConnection hmiConnection
  connected := Set.mem_insert _ _
  own c e x hx := by simp [Registry.step, Registry.new] at hx
  events e event he := by simp [HmiWorld.start] at he
  level _ := rfl

/-- The registry after `AddEvent` of an event that was made just before. -/
theorem registered_expect (h : OwnEvents w r) (event : HmiAwaited) (exp : Expectation HmiData) :
    (∀ e, (r.step (.event w.created.length event.object)).level e = 2) ∧
      (w.dispatched (.expect event exp)).foldl Registry.step r =
        { r.step (.event w.created.length event.object) with
          handler := r.handler.set (hmiConnection, w.created.length) w.created.length } := by
  have hlevel : ∀ e, (r.step (.event w.created.length event.object)).level e = 2 := by
    intro e
    show (Function.update r.events w.created.length event.object e).level = 2
    by_cases he : e = w.created.length
    · rw [he, Function.update_self]
      rfl
    · rw [Function.update_of_ne he]
      exact h.level e
  refine ⟨hlevel, if_pos ?_⟩
  show (r.step (.event w.created.length event.object)).level w.created.length < 4
  rw [hlevel]
  decide

theorem OwnEvents.expect (h : OwnEvents w r) {event : HmiAwaited} {exp : Expectation HmiData}
    (hs : w.step resultCodes checkAllValidations (.expect event exp) = .ok w') :
    OwnEvents w' ((w.dispatched (.expect event exp)).foldl Registry.step r) := by
  obtain ⟨dispatch, hd, rfl⟩ := step_eq_ok hs
  have hk : Run.Allows Registry.step Registry.KeepsLevel r (w.dispatched (.expect event exp)) :=
    ⟨.inl (h.level _).symm, trivial, trivial, trivial⟩
  obtain ⟨hlevel, hstep⟩ := registered_expect h event exp
  have hrefines := h.refines.run hk hd
  rw [hstep] at hrefines ⊢
  refine ⟨hrefines, h.connected, fun c e x hx => ?_, fun e event' he => ?_, hlevel⟩
  · show c = hmiConnection ∧ x = e ∧ e < (w.created ++ [event]).length
    have hx : r.handler.set (hmiConnection, w.created.length) w.created.length (c, e) = some x := hx
    rw [List.length_append, List.length_singleton]
    by_cases hce : (c, e) = (hmiConnection, w.created.length)
    · obtain ⟨rfl, rfl⟩ := Prod.mk.inj hce
      rw [Table.set_self, Option.some.injEq] at hx
      exact ⟨rfl, hx.symm, Nat.lt_succ_self _⟩
    · rw [Table.set_of_ne _ _ hce] at hx
      obtain ⟨hc, hxe, hlt⟩ := h.own c e x hx
      exact ⟨hc, hxe, Nat.lt_succ_of_lt hlt⟩
  · show Function.update r.events w.created.length event.object e = event'.object
    have he : (w.created ++ [event])[e]? = some event' := he
    by_cases hlen : e = w.created.length
    · subst hlen
      rw [List.getElem?_concat_length, Option.some.injEq] at he
      rw [Function.update_self, he]
    · have hlt : e < w.created.length := by
        have hbound := (List.getElem?_eq_some_iff.mp he).1
        rw [List.length_append, List.length_singleton] at hbound
        omega
      rw [Function.update_of_ne hlen]
      rw [List.getElem?_append_left hlt] at he
      exact h.events e event' he

/-- A call that makes no event and adds none. -/
theorem OwnEvents.other (h : OwnEvents w r) (hmakes : call.makes = [])
    (hs : w.step resultCodes checkAllValidations call = .ok w')
    (hk : Run.Allows Registry.step Registry.KeepsLevel r (w.dispatched call))
    (hconn : ((w.dispatched call).foldl Registry.step r).connections = r.connections)
    (hev : ((w.dispatched call).foldl Registry.step r).events = r.events)
    (hsub : ∀ k x, ((w.dispatched call).foldl Registry.step r).handler k = some x → r.handler k = some x) :
    OwnEvents w' ((w.dispatched call).foldl Registry.step r) := by
  obtain ⟨dispatch, hd, rfl⟩ := step_eq_ok hs
  rw [hmakes, List.append_nil]
  refine ⟨h.refines.run hk hd, ?_, fun c e x hx => h.own c e x (hsub _ _ hx), ?_, ?_⟩
  · rw [hconn]
    exact h.connected
  · rw [hev]
    exact h.events
  · unfold Registry.level
    rw [hev]
    exact h.level

theorem OwnEvents.step (h : OwnEvents w r) (hs : w.step resultCodes checkAllValidations call = .ok w') :
    OwnEvents w' ((w.dispatched call).foldl Registry.step r) := by
  cases call with
  | expect => exact h.expect hs
  | sendRequest | sendNotification | sendResponse | sendError =>
    exact h.other rfl hs trivial rfl rfl fun _ _ => id
  | input | finish => exact h.other rfl hs ⟨trivial, trivial⟩ rfl rfl fun _ _ => id
  | clearEvents => exact h.other rfl hs ⟨trivial, trivial⟩ rfl rfl fun _ _ hx => by cases hx
  | removeEvent event =>
    refine h.other rfl hs ⟨trivial, trivial⟩ rfl rfl fun k x hx => ?_
    have hx : r.handler.erase (hmiConnection, event) k = some x := hx
    rw [Table.erase_apply] at hx
    split at hx
    · cases hx
    · exact hx

/-- Each response is expected by one event at most. -/
def Distinct (w : HmiWorld) : Prop :=
  ∀ (e e' id : Nat), w.created[e]? = some (HmiAwaited.response id) →
    w.created[e']? = some (HmiAwaited.response id) → e = e'

theorem Distinct.step (h : w.Distinct) (hk : w.ExpectsOnce call)
    (hs : w.step resultCodes checkAllValidations call = .ok w') : w'.Distinct := by
  obtain ⟨dispatch, -, rfl⟩ := step_eq_ok hs
  cases call with
  | expect event exp =>
    rintro e e' id he he'
    have he : (w.created ++ [event])[e]? = some (.response id) := he
    have he' : (w.created ++ [event])[e']? = some (.response id) := he'
    have hold : ∀ {k : Nat}, (w.created ++ [event])[k]? = some (.response id) →
        w.created[k]? = some (.response id) ∨ k = w.created.length ∧ event = .response id := by
      intro k hk'
      rw [List.getElem?_append] at hk'
      split at hk'
      · exact .inl hk'
      · rename_i hge
        rw [List.getElem?_singleton] at hk'
        split at hk'
        · rename_i hz
          exact .inr ⟨by omega, Option.some.inj hk'⟩
        · cases hk'
    have hfresh : ∀ {k : Nat}, w.created[k]? = some (.response id) → event ≠ .response id := by
      rintro k hk' rfl
      exact hk (List.mem_of_getElem? hk')
    rcases hold he with h1 | ⟨h1, hev⟩ <;> rcases hold he' with h2 | ⟨h2, hev'⟩
    · exact h e e' id h1 h2
    · exact absurd hev' (hfresh h1)
    · exact absurd hev (hfresh h2)
    · rw [h1, h2]
  | sendRequest | sendNotification | sendResponse | sendError | removeEvent | clearEvents | input | finish =>
    intro e e' id he he'
    have hsame : w.created ++ [] = w.created := List.append_nil _
    exact h e e' id (hsame ▸ he) (hsame ▸ he')

/-- The state of a run, with the registry of its dispatcher. -/
theorem reaches_inv {guard : HmiWorld → HmiCall → Prop}
    (hr : Run.Reaches (step resultCodes checkAllValidations) guard (start exps) w) :
    Counted w.connection ∧ ∃ r, OwnEvents w r := by
  refine hr.invariant (I := fun w => Counted w.connection ∧ ∃ r, OwnEvents w r)
    ⟨⟨.nil, nofun⟩, _, .start exps⟩ ?_
  rintro w call w' ⟨hc, r, hn⟩ - hs
  refine ⟨?_, _, hn.step hs⟩
  obtain ⟨dispatch, -, rfl⟩ := step_eq_ok hs
  exact hc.send call

theorem reaches_distinct (hr : Run.Reaches (step resultCodes checkAllValidations) ExpectsOnce (start exps) w) :
    w.Distinct :=
  hr.invariant (fun e e' id he => by simp [start] at he) fun _ _ _ h hk hs => h.step hk hs

/-! ### Who gets a response -/

/-- `event` of the connection is registered. -/
def Expected (w : HmiWorld) (e : Nat) (event : HmiAwaited) : Prop :=
  w.created[e]? = some event ∧ w.dispatch.dispatcher.GetHandler hmiConnection e = .ok (some e)

theorem expected_iff (h : OwnEvents w r) {e : Nat} {event : HmiAwaited} :
    w.Expected e event ↔ w.created[e]? = some event ∧ r.handler (hmiConnection, e) = some e := by
  rw [Expected, h.refines.getHandler_eq h.connected, Except.ok.injEq]

/-- Every match is a candidate, and of the highest level. -/
theorem candidate_iff (h : OwnEvents w r) {data : HmiData} {e x : Nat} :
    r.Candidate false hmiConnection data e x ↔
      x = e ∧ ∃ event, w.Expected e event ∧ event.matchesData data = true := by
  constructor
  · rintro ⟨hx, hmatch, -⟩
    obtain ⟨-, rfl, hlt⟩ := h.own _ _ _ hx
    have hcreated : w.created[x]? = some w.created[x] := List.getElem?_eq_getElem hlt
    rw [h.events x _ hcreated] at hmatch
    exact ⟨rfl, _, (expected_iff h).mpr ⟨hcreated, hx⟩, hmatch⟩
  · rintro ⟨rfl, event, hexp, hmatch⟩
    obtain ⟨hcreated, hx⟩ := (expected_iff h).mp hexp
    refine ⟨hx, ?_, ?_⟩
    · rw [h.events x event hcreated]
      exact hmatch
    · rw [h.level]
      decide

theorem selects_iff (h : OwnEvents w r) {data : HmiData} {x : Nat} :
    r.Selects false hmiConnection data (some x) ↔
      ∃ event, w.Expected x event ∧ event.matchesData data = true := by
  constructor
  · rintro ⟨e, hc, -⟩
    obtain ⟨rfl, hevent⟩ := (candidate_iff h).mp hc
    exact hevent
  · intro hevent
    refine ⟨x, (candidate_iff h).mpr ⟨rfl, hevent⟩, fun e' x' _ => ?_⟩
    rw [h.level, h.level]

theorem response_matches {id id' : Nat} {data : HmiData} (h : (HmiAwaited.response id).matchesData data = true)
    (h' : (HmiAwaited.response id').matchesData data = true) : id = id' := by
  have hnum : ∀ {n : Nat}, (HmiAwaited.response n).matchesData data = true → index data (.str "id") = .num n := by
    intro n hn
    rw [HmiAwaited.matchesData] at hn
    cases hv : index data (.str "id") with
    | num q =>
      rw [hv] at hn
      rw [show q = n by simpa [Value.rawEqual] using hn]
    | _ => rw [hv] at hn; cases hn
  have heq := (hnum h).symm.trans (hnum h')
  exact Rat.natCast_inj.mp (Value.num.inj heq)

/-- The expectation of a response gets a message, in whatever order the pools are visited, exactly if the
message has its id and no call or notification of the method of the message is expected. -/
theorem response_delivered_iff
    (hr : Run.Reaches (step resultCodes checkAllValidations) ExpectsOnce (start exps) w) {e id : Nat}
    (hexp : w.Expected e (.response id)) {data : HmiData} (hframe : data.isFrame = false) :
    (∀ order, w.dispatch.dispatcher.FindHandler HmiData.isFrame order w.dispatch.events hmiConnection data =
        .ok (some e)) ↔
      (HmiAwaited.response id).matchesData data = true ∧
        ∀ e' name, w.Expected e' (.method name) → (HmiAwaited.method name).matchesData data = false := by
  obtain ⟨-, r, h⟩ := reaches_inv hr
  have hfind : ∀ {res}, (∃ order, w.dispatch.dispatcher.FindHandler HmiData.isFrame order w.dispatch.events
      hmiConnection data = .ok res) ↔ hmiConnection ∈ r.connections ∧ r.Selects false hmiConnection data res :=
    fun {res} => hframe ▸ h.refines.findHandler_iff
  constructor
  · intro hall
    obtain ⟨event, hevent, hmatch⟩ := (selects_iff h).mp (hfind.mp ⟨.inOrder, hall .inOrder⟩).2
    obtain rfl : event = .response id := Option.some.inj (hevent.1.symm.trans hexp.1)
    refine ⟨hmatch, fun e' name hexp' => Bool.eq_false_iff.mpr fun hmatch' => ?_⟩
    -- an order that visits the method's event first would find that one
    obtain ⟨order, horder⟩ := hfind.mpr ⟨h.connected, (selects_iff h).mpr ⟨_, hexp', hmatch'⟩⟩
    rw [hall order] at horder
    cases horder
    cases hexp.1.symm.trans hexp'.1
  · rintro ⟨hmatch, hno⟩ order
    obtain ⟨res, hres⟩ : ∃ res, w.dispatch.dispatcher.FindHandler HmiData.isFrame order w.dispatch.events
      hmiConnection data = .ok res := h.refines.findHandler_total h.connected order
    have hsel := (hfind.mp ⟨order, hres⟩).2
    rcases res with _ | x
    · exact absurd ((candidate_iff h).mpr ⟨rfl, _, hexp, hmatch⟩) (hsel e e)
    · obtain ⟨event, hevent, hmatch'⟩ := (selects_iff h).mp hsel
      cases event with
      | response id' =>
        obtain rfl := response_matches hmatch hmatch'
        rw [hres, reaches_distinct hr e x id hexp.1 hevent.1]
      | method name =>
        rw [hno x name hevent] at hmatch'
        cases hmatch'

/-! ### A run -/

namespace Sample

def exp : Expectation HmiData := .new "" 0

/-- A request whose response is expected (0), and a call of SDL's that is expected as well (1). -/
def calls : List HmiCall :=
  [.sendRequest "MB.registerComponent" .nil, .expect (.response 1) exp, .expect (.method "UI.Show") exp]

def start : HmiWorld := HmiWorld.start fun _ => exp

instance (w : HmiWorld) : ∀ call, Decidable (w.ExpectsOnce call)
  | .expect (.response id) _ => inferInstanceAs (Decidable (.response id ∉ w.created))
  | .expect (.method _) _ | .sendRequest .. | .sendNotification .. | .sendResponse .. | .sendError ..
  | .removeEvent _ | .clearEvents | .input .. | .finish .. => inferInstanceAs (Decidable True)

def waiting : HmiWorld := (Run.exec (step .empty none) ExpectsOnce start calls).getD start

theorem reaches : Run.Reaches (step .empty none) ExpectsOnce start waiting := 
  .of_exec .start (show Run.exec (step .empty none) ExpectsOnce start calls = some waiting from rfl)

end Sample

theorem response_delivered_iff_sample :
    (∀ order, Sample.waiting.dispatch.dispatcher.FindHandler HmiData.isFrame order Sample.waiting.dispatch.events
        hmiConnection [(.str "id", .num 1)] = .ok (some 0)) ↔
      (HmiAwaited.response 1).matchesData [(.str "id", .num 1)] = true ∧ ∀ e' name,
        Sample.waiting.Expected e' (.method name) →
          (HmiAwaited.method name).matchesData [(.str "id", .num 1)] = false :=
  response_delivered_iff Sample.reaches ⟨rfl, rfl⟩ rfl

/-- In every run the ids of the requests that were sent grow, so no two requests have the same. -/
theorem request_ids_increasing {guard : HmiWorld → HmiCall → Prop}
    (hr : Run.Reaches (step resultCodes checkAllValidations) guard (start exps) w) :
    (w.connection.sent.filterMap HmiOutput.requestId).Pairwise (· < ·) := (reaches_inv hr).1.increasing

end HmiWorld

end Atf
