import Atf.HmiRequests

/-!
# Registration of the HMI (`initHMI` in `connecttest.lua`)

When the socket is connected `initHMI` sends one `MB.registerComponent` for each component, and the response
to it makes it send one `MB.subscribeTo` for each subscription of the component. Responses may come in any
order, between any other messages. The check that `EXPECT_HMIRESPONSE` installs may raise on a response (an
`error` without `data`, a function of an interface that the schema does not have); nothing else raises. The
runs are those of the step up to its report, which takes the expectations away.
-/

namespace Atf
open Lua HmiWorld

/-- What a message of SDL finds: the orders in which `pairs` visits the pools, and the time. -/
structure HmiInput where
  data : HmiData
  order : Pairs Nat Nat
  connections : Pairs Nat Pool
  validated : Pairs Nat Nat
  timestamp : Int

structure InitHmiEnv where
  resultCodes : Table String Int
  checkAllValidations : Option Bool
  hmi : HmiEnv
  -- `timestamp()` when the response with an id is expected
  timestamp : Nat → Int

/-- The check of `EXPECT_HMIRESPONSE` without arguments. -/
def InitHmiEnv.check (env : InitHmiEnv) (occurences : Nat) (data : HmiData) : LuaM (Bool × String × Value) :=
  hmiResponseValid env.hmi [] occurences data

/-- The expectation of `EXPECT_HMIRESPONSE`. Where its check raises, `RaiseEvent` does not get to its result. -/
def InitHmiEnv.exp (env : InitHmiEnv) (id : Nat) : Expectation HmiData :=
  (Expectation.new ("HMI response " ++ toString id) (env.timestamp id)).validIf fun self data =>
    match env.check self.occurences data with
    | .ok (valid, message, _) => (valid, some message)
    | .error _ => (false, none)

/-- `actions` are the properties that the functions given to `Do` subscribe to, for each expectation. -/
structure InitHmi where
  world : HmiWorld
  actions : List (List String)

namespace InitHmi

def components : List (String × List String) :=
  [("Buttons", []), ("TTS", []), ("VR", []),
    ("BasicCommunication",
      ["BasicCommunication.OnPutFile", "SDL.OnStatusUpdate", "SDL.OnAppPermissionChanged",
        "BasicCommunication.OnSDLPersistenceComplete", "BasicCommunication.OnFileRemoved",
        "BasicCommunication.OnAppRegistered", "BasicCommunication.OnAppUnregistered", "BasicCommunication.PlayTone",
        "BasicCommunication.OnSDLClose", "SDL.OnSDLConsentNeeded", "BasicCommunication.OnResumeAudioSource",
        "BasicCommunication.OnSystemCapabilityUpdated"]),
    ("UI", ["UI.OnRecordStart"]), ("VehicleInfo", []), ("RC", ["RC.OnRCStatus"]),
    ("Navigation", ["Navigation.OnAudioDataStreaming", "Navigation.OnVideoDataStreaming"]),
    ("AppService", ["AppService.OnAppServiceData"])]

def registration (name : String) : String × Value :=
  ("MB.registerComponent", .table [(.str "componentName", .str name)])

def subscription (name : String) : String × Value := ("MB.subscribeTo", .table [(.str "propertyName", .str name)])

/-- `SendRequest`, and `EXPECT_HMIRESPONSE` for the id it returns. -/
def request (env : InitHmiEnv) (self : InitHmi) (message : String × Value) (subscriptions : List String) :
    LuaM InitHmi := do
  let world ← self.world.step env.resultCodes env.checkAllValidations (.sendRequest message.1 message.2)
  let rid := world.connection.requestId
  let world ← world.step env.resultCodes env.checkAllValidations (.expect (.response rid) (env.exp rid))
  return ⟨world, self.actions ++ [subscriptions]⟩

def registerComponent (env : InitHmiEnv) (self : InitHmi) (component : String × List String) : LuaM InitHmi :=
  self.request env (registration component.1) component.2

def subscribeTo (env : InitHmiEnv) (self : InitHmi) (name : String) : LuaM InitHmi :=
  self.request env (subscription name) []

/-- The function given to `Do` for the connected event. -/
def connected (env : InitHmiEnv) (self : InitHmi) : LuaM InitHmi := components.foldlM (registerComponent env) self

def input (env : InitHmiEnv) (self : InitHmi) (message : HmiInput) : LuaM InitHmi := do
  match ← self.world.dispatch.delivered HmiData.isFrame (.raiseEvent message.order hmiConnection message.data) with
  | none => do
    let world ← self.world.step env.resultCodes env.checkAllValidations (.input message.order message.data)
    return { self with world }
  | some exp => do
    let _ ← env.check ((self.world.dispatch.exps exp).occurences + 1) message.data
    let world ← self.world.step env.resultCodes env.checkAllValidations (.input message.order message.data)
    let self ← ((self.actions[exp]?).getD []).foldlM (subscribeTo env) { self with world }
    let world ← self.world.step env.resultCodes env.checkAllValidations
      (.finish message.connections message.validated message.timestamp)
    return { self with world }

def start (exps : Nat → Expectation HmiData) : InitHmi := ⟨.start exps, []⟩

/-- `initHMI` up to the message that was received last. -/
def run (env : InitHmiEnv) (exps : Nat → Expectation HmiData) (messages : List HmiInput) : LuaM InitHmi := do
  let self ← (start exps).connected env
  messages.foldlM (input env) self

/-! ### What is to be sent -/

/-- The requests with their ids. -/
def numbered (messages : List (String × Value)) : List HmiOutput :=
  (messages.zipIdx 1).map fun p => .request p.2 p.1.1 p.1.2

/-- What the expectation of the response with the id of `data` subscribes to, for the expectations of the ids
from `id` on. -/
def answered (data : HmiData) : Nat → List (List String) → List String
  | _, [] => []
  | id, subscriptions :: actions =>
    if data.isFrame = false ∧ (HmiAwaited.response id).matchesData data = true then subscriptions
    else answered data (id + 1) actions

theorem answered_append_empty (data : HmiData) (id : Nat) (actions : List (List String)) (k : Nat) :
    answered data id (actions ++ List.replicate k []) = answered data id actions := by
  induction actions generalizing id with
  | nil =>
    induction k generalizing id with
    | zero => rfl
    | succ k ih =>
      have ih : answered data (id + 1) (List.replicate k []) = [] := ih (id + 1)
      show answered data id ([] :: List.replicate k []) = []
      rw [answered, ih, ite_self]
  | cons subscriptions actions ih =>
    rw [List.cons_append, answered, ih]
    rfl

/-- Nothing is answered by a message that no expectation matches. -/
theorem answered_of_none {data : HmiData} {id : Nat} {actions : List (List String)}
    (hno : ∀ i, id ≤ i → i < id + actions.length →
      ¬ (data.isFrame = false ∧ (HmiAwaited.response i).matchesData data = true)) :
    answered data id actions = [] := by
  induction actions generalizing id with
  | nil => rfl
  | cons subscriptions actions ih =>
    rw [answered, if_neg (hno id (Nat.le_refl _) (by simp))]
    refine ih fun i hi hlt => hno i (by omega) ?_
    rw [List.length_cons]
    omega

theorem answered_of_matches {data : HmiData} (hframe : data.isFrame = false) {id x : Nat} {actions : List (List String)}
    (hx : x < actions.length) (hmatch : (HmiAwaited.response (id + x)).matchesData data = true) :
    answered data id actions = actions[x]?.getD [] := by
  induction actions generalizing id x with
  | nil => simp at hx
  | cons subscriptions actions ih =>
    rcases x with _ | x
    · rw [answered, if_pos ⟨hframe, hmatch⟩]
      rfl
    · -- the ids before that of the match are not the id of the message
      rw [answered, if_neg]
      · exact ih (Nat.lt_of_succ_lt_succ hx) (by rwa [Nat.add_assoc, Nat.add_comm 1 x])
      · rintro ⟨-, hhere⟩
        have heq := response_matches hhere hmatch
        omega

/-! ### Each request has the next id, and its response is expected -/

/-- The requests sent so far, each with the subscriptions that its response brings about. -/
structure Sending (s : InitHmi) (reqs : List ((String × Value) × List String)) : Prop where
  requestId : s.world.connection.requestId = reqs.length
  sent : s.world.connection.sent = numbered (reqs.map Prod.fst)
  created : s.world.created = (List.range reqs.length).map fun i => .response (i + 1)
  actions : s.actions = reqs.map Prod.snd
  registered : ∃ r, OwnEvents s.world r ∧ ∀ e < reqs.length, r.handler (hmiConnection, e) = some e

theorem numbered_append (messages : List (String × Value)) (message : String × Value) :
    numbered (messages ++ [message]) =
      numbered messages ++ [.request (messages.length + 1) message.1 message.2] := by
  simp [numbered, List.zipIdx_append, Nat.add_comm]

variable {s : InitHmi} {reqs : List ((String × Value) × List String)}

theorem Sending.start (exps : Nat → Expectation HmiData) : Sending (start exps) [] :=
  ⟨rfl, rfl, rfl, rfl, _, .start exps, fun e he => absurd he (Nat.not_lt_zero e)⟩

theorem foldlM_cons_total {α β : Type} {f : β → α → LuaM β} {a : α} {as : List α} {b b₁ : β} (hb : f b a = .ok b₁)
    (has : ∃ b', as.foldlM f b₁ = .ok b') : ∃ b', (a :: as).foldlM f b = .ok b' := by
  obtain ⟨b', hb'⟩ := has
  refine ⟨b', ?_⟩
  rw [List.foldlM_cons]
  exact bind_eq_ok.mpr ⟨b₁, hb, hb'⟩

theorem step_total {w : HmiWorld} {resultCodes : Table String Int} {checkAllValidations : Option Bool} {call : HmiCall}
    (h : ∃ d, (w.dispatched call).foldlM (DispatcherState.step HmiData.isFrame checkAllValidations) w.dispatch =
      .ok d) :
    ∃ w', w.step resultCodes checkAllValidations call = .ok w' := by
  obtain ⟨d, hd⟩ := h
  exact ⟨_, bind_eq_ok.mpr ⟨d, hd, rfl⟩⟩

/-- On the HMI connection an expectation can always be added. -/
theorem expect_total {w : HmiWorld} {r : Registry HmiData} (h : OwnEvents w r) (resultCodes : Table String Int)
    (checkAllValidations : Option Bool) (event : HmiAwaited) (exp : Expectation HmiData) :
    ∃ w', w.step resultCodes checkAllValidations (.expect event exp) = .ok w' := by
  have hconn : ∀ l, w.dispatch.dispatcher.Connected l hmiConnection := fun l =>
    (h.refines.connected l _).mpr h.connected
  obtain ⟨d, hd⟩ := Dispatcher.addEvent_total hconn w.created.length
    (Function.update w.dispatch.events w.created.length event.object w.created.length).level w.created.length
  refine step_total (foldlM_cons_total rfl (foldlM_cons_total rfl ?_))
  exact foldlM_cons_total (bind_eq_ok.mpr ⟨d, hd, rfl⟩) ⟨_, rfl⟩

theorem Sending.request (h : Sending s reqs) (env : InitHmiEnv) (message : String × Value)
    (subscriptions : List String) :
    ∃ s', s.request env message subscriptions = .ok s' ∧ Sending s' (reqs ++ [(message, subscriptions)]) := by
  obtain ⟨r, hn, hreg⟩ := h.registered
  let w₁ : HmiWorld := { s.world with connection := (s.world.connection.SendRequest message.1 message.2).2 }
  have hw₁ : s.world.step env.resultCodes env.checkAllValidations (.sendRequest message.1 message.2) = .ok w₁ := by
    refine bind_eq_ok.mpr ⟨s.world.dispatch, rfl, congrArg Except.ok ?_⟩
    show HmiWorld.mk _ s.world.dispatch (s.world.created ++ []) = _
    rw [List.append_nil]
    rfl
  have hn₁ : OwnEvents w₁ r := hn.step hw₁
  have hrid : w₁.connection.requestId = reqs.length + 1 := congrArg (· + 1) h.requestId
  obtain ⟨w₂, hw₂⟩ := expect_total hn₁ env.resultCodes env.checkAllValidations
    (.response w₁.connection.requestId) (env.exp w₁.connection.requestId)
  refine ⟨⟨w₂, s.actions ++ [subscriptions]⟩, ?_, ?_⟩
  · exact bind_eq_ok.mpr ⟨w₁, hw₁, bind_eq_ok.mpr ⟨w₂, hw₂, rfl⟩⟩
  · have hn₂ := hn₁.step hw₂
    obtain ⟨dispatch, -, rfl⟩ := step_eq_ok hw₂
    have hlen : s.world.created.length = reqs.length := by rw [h.created, List.length_map, List.length_range]
    refine ⟨?_, ?_, ?_, ?_, _, hn₂, fun e he => ?_⟩
    · rw [List.length_append]
      exact hrid
    · show s.world.connection.sent ++ [.request (s.world.connection.requestId + 1) message.1 message.2] = _
      rw [h.sent, h.requestId, List.map_append]
      exact ((numbered_append (reqs.map Prod.fst) message).trans (by rw [List.length_map])).symm
    · show s.world.created ++ [HmiAwaited.response w₁.connection.requestId] = _
      rw [h.created, hrid, List.length_append, List.length_singleton, List.range_succ, List.map_append]
      rfl
    · show s.actions ++ [subscriptions] = _
      rw [h.actions, List.map_append]
      rfl
    · rw [List.length_append, List.length_singleton] at he
      rw [(registered_expect hn₁ _ _).2]
      show (r.handler.set (hmiConnection, s.world.created.length) s.world.created.length) (hmiConnection, e) = some e
      rw [hlen, Table.set_apply]
      split
      · rename_i heq
        rw [(Prod.mk.inj heq).2]
      · rename_i hne
        have hlt : e < reqs.length := by
          by_contra hge
          exact hne (by rw [show e = reqs.length by omega])
        exact hreg e hlt

theorem Sending.requests (h : Sending s reqs) (env : InitHmiEnv) (more : List ((String × Value) × List String)) :
    ∃ s', more.foldlM (fun (s : InitHmi) p => s.request env p.1 p.2) s = .ok s' ∧ Sending s' (reqs ++ more) := by
  induction more generalizing s reqs with
  | nil => exact ⟨s, rfl, by rwa [List.append_nil]⟩
  | cons p more ih =>
    obtain ⟨s₁, hs₁, h₁⟩ := h.request env p.1 p.2
    obtain ⟨s₂, hs₂, h₂⟩ := ih h₁
    refine ⟨s₂, ?_, by rwa [List.append_assoc] at h₂⟩
    rw [List.foldlM_cons]
    exact bind_eq_ok.mpr ⟨s₁, hs₁, hs₂⟩

/-- A call that sends nothing and leaves the registry. -/
theorem Sending.other (h : Sending s reqs) {env : InitHmiEnv} {call : HmiCall} {w' : HmiWorld}
    (hs : s.world.step env.resultCodes env.checkAllValidations call = .ok w') (hmakes : call.makes = [])
    (hsend : send env.resultCodes s.world.connection call = s.world.connection)
    (hreg : ∀ r : Registry HmiData, (s.world.dispatched call).foldl Registry.step r = r) :
    Sending { s with world := w' } reqs := by
  obtain ⟨r, hn, hr⟩ := h.registered
  have hn' := hn.step hs
  rw [hreg] at hn'
  obtain ⟨dispatch, -, rfl⟩ := step_eq_ok hs
  refine ⟨?_, ?_, ?_, h.actions, r, hn', hr⟩
  · show (send env.resultCodes s.world.connection call).requestId = _
    rw [hsend]
    exact h.requestId
  · show (send env.resultCodes s.world.connection call).sent = _
    rw [hsend]
    exact h.sent
  · show s.world.created ++ call.makes = _
    rw [hmakes, List.append_nil]
    exact h.created

/-- The message is for the expectation of the request with its id. -/
theorem Sending.found (h : Sending s reqs) (order : Pairs Nat Nat) (data : HmiData) :
    ∃ res, s.world.dispatch.delivered HmiData.isFrame (.raiseEvent order hmiConnection data) = .ok res ∧
      ((res = none ∧ answered data 1 s.actions = []) ∨
        ∃ x, res = some x ∧ answered data 1 s.actions = (s.actions[x]?).getD [] ∧
          ∃ id, (HmiAwaited.response id).matchesData data = true) := by
  obtain ⟨r, hn, hreg⟩ := h.registered
  have hcreated : ∀ {x event}, s.world.created[x]? = some event → event = .response (x + 1) ∧ x < reqs.length := by
    intro x event hx
    rw [h.created, List.getElem?_map] at hx
    obtain ⟨i, hi, rfl⟩ := Option.map_eq_some_iff.mp hx
    obtain ⟨hlt, rfl⟩ := List.getElem?_eq_some_iff.mp hi
    rw [List.length_range] at hlt
    exact ⟨by rw [List.getElem_range], hlt⟩
  have hlen : s.actions.length = reqs.length := by rw [h.actions, List.length_map]
  obtain ⟨res, hres⟩ : ∃ res, s.world.dispatch.dispatcher.FindHandler HmiData.isFrame order s.world.dispatch.events
    hmiConnection data = .ok res := hn.refines.findHandler_total hn.connected order
  have hsel := (hn.refines.findHandler_iff.mp ⟨order, hres⟩).2
  refine ⟨res, hres, ?_⟩
  by_cases hframe : data.isFrame = false
  · rw [hframe] at hsel
    rcases res with _ | x
    · refine .inl ⟨rfl, answered_of_none fun i hi hlt hmatch => ?_⟩
      obtain ⟨k, rfl⟩ : ∃ k, i = k + 1 := ⟨i - 1, by omega⟩
      have hk : k < reqs.length := by omega
      refine hsel k k ((candidate_iff hn).mpr ⟨rfl, .response (k + 1), ?_, hmatch.2⟩)
      refine (expected_iff hn).mpr ⟨?_, hreg k hk⟩
      rw [h.created, List.getElem?_map, List.getElem?_range hk]
      rfl
    · obtain ⟨event, hevent, hmatch⟩ := (selects_iff hn).mp hsel
      obtain ⟨rfl, hlt⟩ := hcreated hevent.1
      refine .inr ⟨x, rfl, answered_of_matches hframe (hlen ▸ hlt) ?_, _, hmatch⟩
      rwa [Nat.add_comm 1 x]
  · -- only events of level 0 are for frames, and no event here is
    rw [Bool.not_eq_false] at hframe
    refine .inl ⟨?_, answered_of_none fun i _ _ hmatch => by rw [hframe] at hmatch; cases hmatch.1⟩
    rcases res with _ | x
    · rfl
    · obtain ⟨e, ⟨-, -, hlevel⟩, -⟩ := hsel
      have hzero := hlevel.mpr hframe
      rw [hn.level] at hzero
      cases hzero

/-- The message has the id of a request, and the check raises on it. -/
structure CheckRaises (env : InitHmiEnv) (data : HmiData) (e : String) : Prop where
  response : ∃ id, (HmiAwaited.response id).matchesData data = true
  raises : hmiResponseCheck env.hmi .nil data = .error e

/-- A message is dealt with, or the check raises on it. -/
theorem Sending.input (h : Sending s reqs) (env : InitHmiEnv) (message : HmiInput) :
    (∃ s', s.input env message = .ok s' ∧ Sending s' (reqs ++
      (answered message.data 1 (reqs.map Prod.snd)).map fun name => (subscription name, []))) ∨
    ∃ e, s.input env message = .error e ∧ CheckRaises env message.data e := by
  obtain ⟨res, hres, hans⟩ := h.found message.order message.data
  rw [← h.actions]
  obtain ⟨w₁, hw₁⟩ : ∃ w₁, s.world.step env.resultCodes env.checkAllValidations
      (.input message.order message.data) = .ok w₁ :=
    step_total (foldlM_cons_total (bind_eq_ok.mpr ⟨res, hres, rfl⟩) ⟨_, rfl⟩)
  have h₁ : Sending { s with world := w₁ } reqs := h.other hw₁ rfl rfl fun _ => rfl
  rcases hans with ⟨rfl, hans⟩ | ⟨x, rfl, hans, hid⟩
  · refine .inl ⟨{ s with world := w₁ }, bind_eq_ok.mpr ⟨none, hres, bind_eq_ok.mpr ⟨w₁, hw₁, rfl⟩⟩, ?_⟩
    rwa [hans, List.map_nil, List.append_nil]
  · -- without arguments every occurrence is checked alike
    have hcheck : env.check ((s.world.dispatch.exps x).occurences + 1) message.data =
        hmiResponseCheck env.hmi .nil message.data := rfl
    cases hraises : hmiResponseCheck env.hmi .nil message.data with
    | error e =>
      refine .inr ⟨e, ?_, hid, hraises⟩
      rw [InitHmi.input, hres]
      dsimp only [bind, Except.bind]
      rw [hcheck, hraises]
    | ok verdict =>
      obtain ⟨s₂, hs₂, h₂⟩ := h₁.requests env
        ((answered message.data 1 s.actions).map fun name => (subscription name, []))
      rw [List.foldlM_map] at hs₂
      obtain ⟨w₃, hw₃⟩ : ∃ w₃, s₂.world.step env.resultCodes env.checkAllValidations
          (.finish message.connections message.validated message.timestamp) = .ok w₃ := by
        have hfinish : ∃ d, s₂.world.dispatch.step HmiData.isFrame env.checkAllValidations
            (.finish message.connections message.validated message.timestamp) = .ok d := by
          simp only [DispatcherState.step]
          split <;> exact ⟨_, rfl⟩
        obtain ⟨d, hd⟩ := hfinish
        exact step_total (foldlM_cons_total hd ⟨_, rfl⟩)
      refine .inl ⟨{ s₂ with world := w₃ }, ?_, h₂.other hw₃ rfl rfl fun _ => rfl⟩
      refine bind_eq_ok.mpr ⟨some x, hres, bind_eq_ok.mpr ⟨verdict, hcheck.trans hraises, ?_⟩⟩
      refine bind_eq_ok.mpr ⟨w₁, hw₁, bind_eq_ok.mpr ⟨s₂, ?_, bind_eq_ok.mpr ⟨w₃, hw₃, rfl⟩⟩⟩
      rw [← hans]
      exact hs₂

theorem Sending.inputs (h : Sending s reqs) (env : InitHmiEnv) (subscriptions : List (List String))
    (hsub : ∃ k, reqs.map Prod.snd = subscriptions ++ List.replicate k []) (messages : List HmiInput) :
    (∃ s', messages.foldlM (InitHmi.input env) s = .ok s' ∧ s'.world.connection.sent = numbered (reqs.map Prod.fst ++
      messages.flatMap fun m => (answered m.data 1 subscriptions).map subscription)) ∨
    ∃ m ∈ messages, ∃ e, messages.foldlM (InitHmi.input env) s = .error e ∧ CheckRaises env m.data e := by
  induction messages generalizing s reqs with
  | nil => exact .inl ⟨s, rfl, by rw [List.flatMap_nil, List.append_nil]; exact h.sent⟩
  | cons m messages ih =>
    obtain ⟨k, hk⟩ := hsub
    rw [List.foldlM_cons]
    rcases h.input env m with ⟨s₁, hs₁, h₁⟩ | ⟨e, he, hraises⟩
    · rw [hk, answered_append_empty] at h₁
      have hsub : ∃ k,
          (reqs ++ (answered m.data 1 subscriptions).map fun name => (subscription name, [])).map Prod.snd =
          subscriptions ++ List.replicate k [] := by
        refine ⟨k + (answered m.data 1 subscriptions).length, ?_⟩
        rw [List.map_append, hk, List.append_assoc, List.replicate_add, List.map_map]
        congr 1
        congr 1
        exact List.map_const' ..
      rw [hs₁]
      rcases ih h₁ hsub with ⟨s₂, hs₂, hsent⟩ | ⟨m', hm', herror⟩
      · refine .inl ⟨s₂, hs₂, ?_⟩
        rw [hsent, List.map_append, List.map_map, List.flatMap_cons, List.append_assoc]
        rfl
      · exact .inr ⟨m', List.mem_cons_of_mem _ hm', herror⟩
    · rw [he]
      exact .inr ⟨m, List.mem_cons_self, e, rfl, hraises⟩

/-- An error without `data`. -/
example : CheckRaises ⟨.empty, none, ResponseSample.env, fun _ => 0⟩
    [(.str "id", .num 1), (.str "error", .table [(.str "code", .num 5)])] "attempt to index a nil value" :=
  ⟨⟨1, by decide⟩, rfl⟩

end InitHmi

end Atf
