import Atf.RpcService
import Atf.Lib.Run

/-!
# Which payloads the checks of the RPC service refuse

Neither check looks at the schema. `baseExpectResponse` asks for the type of an unassigned global and
never calls `Validate`; `baseExpectRequest` calls it with an unassigned global as the function, for which
`Compare` answers `true` at once. So a payload that the schema rejects is refused exactly when it is
refused for another reason (`Refused`): it was encrypted, or it does not match the expected arguments.
-/

namespace Atf
open Lua

variable {env : RpcEnv} {args : List Value} {exp : ExpectationData} {data : Msg Value}

def SchemaRejects (env : RpcEnv) (func : FunctionRef) (type : FunctionType) (data : Msg Value) : Prop :=
  ∃ text payload, validate env.lib env.mobSchema env.validateSchema (some func) type
    (data.payload.getD .nil) = .ok (false, text, payload)

/-- The message was encrypted, or arguments are expected and `compareValues` does not find them in the
payload. -/
def Refused (env : RpcEnv) (args : List Value) (exp : ExpectationData) (data : Msg Value) : Prop :=
  data.decryptionStatus ≠ .NO_ENCRYPTION ∨
    0 < argsLength args ∧
      (compareValues env.lib (expectedArguments args exp.occurences) (data.payload.getD .nil) "payload").1 = false

/-! ### The checks -/

theorem validate_undeclared (env : RpcEnv) (type : FunctionType) (payload : Value) :
    validate env.lib env.mobSchema env.validateSchema undeclared type payload = .ok (true, "", payload) := by
  rcases hv : env.validateSchema with _ | _
  · rfl
  · rfl

theorem responseCheck_eq (func_name : Option FunctionRef) :
    responseCheck env func_name args exp data =
      .ok ((compareValues env.lib (expectedArguments args exp.occurences) (data.payload.getD .nil) "payload").1,
        some (compareValues env.lib (expectedArguments args exp.occurences) (data.payload.getD .nil)
          "payload").2) := rfl

theorem requestCheck_eq (funcName : FunctionRef) :
    requestCheck env funcName args exp data =
      .ok ((compareValues env.lib (expectedArguments args exp.occurences) (data.payload.getD .nil) "payload").1,
        some (compareValues env.lib (expectedArguments args exp.occurences) (data.payload.getD .nil)
          "payload").2) := by
  rcases funcName with s | n
  · unfold requestCheck payloadCheck
    simp only [isString, ↓reduceIte, validate_undeclared]
    rfl
  · rfl

namespace RpcExpectation

theorem verdict_validIf {ret : RpcExpectation} {func : RpcCheck} {accepted valid : Bool} {msg : Option String}
    (hret : ret.verdict exp data = .ok accepted) (hfunc : func exp data = .ok (valid, msg)) :
    (ret.validIf func).verdict exp data = .ok (accepted && valid) := by
  unfold verdict at hret ⊢
  rw [validIf, List.foldlM_append, hret]
  simp only [List.foldlM_cons, List.foldlM_nil, bind, Except.bind, hfunc]
  rfl

/-- An expectation with a check of the payload, if arguments are expected, and the check of the
decryption. -/
theorem verdict_eq_false_iff {ret : RpcExpectation} {check : RpcCheck} {msg : Option String}
    (hret : ret.verifyData = [])
    (hcheck : check exp data = .ok ((compareValues env.lib (expectedArguments args exp.occurences)
      (data.payload.getD .nil) "payload").1, msg)) :
    ((if argsLength args > 0 then ret.validIf check else ret).validIf notEncrypted).verdict exp data = .ok false ↔
      Refused env args exp data := by
  have hnone : ret.verdict exp data = .ok true := by rw [verdict, hret]; rfl
  have hplain : notEncrypted exp data = .ok (data.decryptionStatus == .NO_ENCRYPTION, none) := rfl
  unfold Refused
  split
  · rename_i hpos
    rw [verdict_validIf (verdict_validIf hnone hcheck) hplain]
    simp only [Bool.true_and, Except.ok.injEq, Bool.and_eq_false_iff, beq_eq_false_iff_ne]
    constructor
    · rintro (h | h)
      · exact .inr ⟨hpos, h⟩
      · exact .inl h
    · rintro (h | ⟨-, h⟩)
      · exact .inr h
      · exact .inl h
  · rename_i hzero
    rw [verdict_validIf hnone hplain]
    simp only [Bool.true_and, Except.ok.injEq, beq_eq_false_iff_ne]
    constructor
    · exact .inl
    · rintro (h | ⟨hpos, -⟩)
      · exact h
      · exact absurd hpos hzero

end RpcExpectation

namespace RpcSession

theorem expectResponse_verdict {s s' : RpcSession} {cor_id : CorId} {ret : RpcExpectation}
    (h : s.expectResponse env cor_id args = .ok (s', ret)) :
    ret.verdict exp data = .ok false ↔ Refused env args exp data := by
  obtain ⟨⟨s₁, base⟩, hbase, heq⟩ := map_eq_ok.mp h
  cases heq
  unfold baseExpectResponse at hbase
  dsimp only at hbase
  split at hbase
  · cases hbase
  · cases hbase
    exact RpcExpectation.verdict_eq_false_iff rfl (responseCheck_eq _)

theorem expectRequest_verdict (funcName : FunctionRef) :
    (expectRequest env funcName args).verdict exp data = .ok false ↔ Refused env args exp data :=
  RpcExpectation.verdict_eq_false_iff rfl (requestCheck_eq funcName)

end RpcSession

/-! ### Runs -/

inductive RpcEvent
  | sendRPC (func : FunctionRef) (arguments : Value) (fileName : Option String) (encrypt : Bool)
  | expectResponse (cor_id : CorId) (args : List Value)

/-- The session, and the correlation ids that `SendRPC` has returned, each with its function. -/
structure RpcHistory where
  session : RpcSession
  requests : List (Int × FunctionRef)

def RpcHistory.step (env : RpcEnv) (h : RpcHistory) : RpcEvent → LuaM RpcHistory
  | .sendRPC func arguments fileName encrypt =>
    (h.session.sendRPC env func arguments fileName encrypt).map fun (session, c) =>
      ⟨session, h.requests ++ [(c, func)]⟩
  | .expectResponse cor_id args =>
    (h.session.expectResponse env cor_id args).map fun (session, _) => { h with session }

def ResponsesChecked (env : RpcEnv) (h : RpcHistory) : Prop :=
  ∀ c func, (c, func) ∈ h.requests → ∀ args s' ret,
    h.session.expectResponse env (.number c) args = .ok (s', ret) →
      ∀ exp data, SchemaRejects env func .response data → ret.verdict exp data = .ok false

def RequestsChecked (env : RpcEnv) : Prop :=
  ∀ func args exp data, SchemaRejects env (.name func) .request data →
    (RpcSession.expectRequest env (.name func) args).verdict exp data = .ok false

/-- In every run, a payload that the schema rejects is refused by the check of the response, and by that
of a request, if and only if it is `Refused` without the schema. -/
theorem rejected_payload_refused_iff (env : RpcEnv) (session : RpcSession) {h : RpcHistory}
    (_hr : Run.Reaches (RpcHistory.step env) (fun _ _ => True) ⟨session, []⟩ h) :
    (∀ c func, (c, func) ∈ h.requests → ∀ args s' ret,
      h.session.expectResponse env (.number c) args = .ok (s', ret) →
        ∀ exp data, SchemaRejects env func .response data →
          (ret.verdict exp data = .ok false ↔ Refused env args exp data)) ∧
    (∀ func args exp data, SchemaRejects env (.name func) .request data →
      ((RpcSession.expectRequest env (.name func) args).verdict exp data = .ok false ↔
        Refused env args exp data)) := by
  constructor
  · intro c func _ args s' ret hexpect exp data _
    exact RpcSession.expectResponse_verdict hexpect
  · intro func args exp data _
    exact RpcSession.expectRequest_verdict (.name func)

namespace RpcSample

def param (type : String) : Param := { type, mandatory := some "true", array := none }

def schema : Schema :=
  [("SmartDeviceLink RAPI",
    { functions := fun
        | .request => [("PerformAppServiceInteraction", [("serviceUri", param "String")])]
        | .response => [("Show", [("success", param "Boolean"), ("info", param "String")])]
        | .notification => []
      enum := [], struct := [] })]

def mobileEnv : RpcEnv :=
  { lib := ⟨fun n => toString n.num, fun entries => entries.all fun e => e.1 matches .int _⟩
    encode := fun _ => [], files := Table.empty
    functionId := [("Show", 13), ("PerformAppServiceInteraction", 64)], mobSchema := schema, validateSchema := true }

def session : RpcSession :=
  { sessionId := 1, version := 2, messageId := 0, correlationId := 0, corIdFuncMap := [], sent := [] }

def message (payload : Value) : Msg Value :=
  { version := 2, frameType := 1, encryption := false, serviceType := SERVICE_TYPE.RPC, frameInfo := 0
    sessionId := 1, size := 0, messageId := 1, binaryData := [], decryptionStatus := .NO_ENCRYPTION
    rpcType := some BINARY_RPC_TYPE.RESPONSE, rpcFunctionId := some 13, rpcJsonSize := none
    rpcCorrelationId := some 1, payload := some payload }

/-- A response whose `success` is a text, where the schema says `Boolean`. -/
def payload : Value := .table [(.str "success", .str "true")]

def firstOccurrence : ExpectationData :=
  { (Expectation.new "Response to 1" 0 : Expectation Unit).toExpectationData with occurences := 1 }

theorem show_accepted :
    ∃ h s' ret, Run.Reaches (RpcHistory.step mobileEnv) (fun _ _ => True) ⟨session, []⟩ h ∧
      h.requests = [(1, .name "Show")] ∧
      h.session.expectResponse mobileEnv (.number 1) [payload] = .ok (s', ret) ∧
      ret.verdict firstOccurrence (message payload) = .ok true := by
  have hrun : (Run.exec (RpcHistory.step mobileEnv) (fun _ _ => True) ⟨session, []⟩
      [.sendRPC (.name "Show") (.table []) none false]).isSome = true := by
    decide +kernel
  obtain ⟨h, hh⟩ := Option.isSome_iff_exists.mp hrun
  have hr := Run.Reaches.of_exec .start hh
  cases hh
  exact ⟨_, _, _, hr, rfl, rfl, rfl⟩

theorem schemaRejects_of_validate {func : FunctionRef} {type : FunctionType} {data : Msg Value}
    (h : (validate mobileEnv.lib schema true (some func) type (data.payload.getD .nil)).map (·.1) = .ok false) :
    SchemaRejects mobileEnv func type data := by
  obtain ⟨⟨result, text, payload⟩, hv, rfl⟩ := map_eq_ok.mp h
  exact ⟨text, payload, hv⟩

end RpcSample

open RpcSample in
theorem rejected_payload_refused_iff_sample :
    ∃ h s' ret, Run.Reaches (RpcHistory.step mobileEnv) (fun _ _ => True) ⟨session, []⟩ h ∧
      h.session.expectResponse mobileEnv (.number 1) [payload] = .ok (s', ret) ∧
      SchemaRejects mobileEnv (.name "Show") .response (message payload) ∧
      (ret.verdict firstOccurrence (message payload) = .ok false ↔
        Refused mobileEnv [payload] firstOccurrence (message payload)) := by
  obtain ⟨h, s', ret, hr, hrequests, hexpect, -⟩ := show_accepted
  have hrejects : SchemaRejects mobileEnv (.name "Show") .response (message payload) :=
    schemaRejects_of_validate rfl
  have hmem : ((1 : Int), FunctionRef.name "Show") ∈ h.requests := by
    rw [hrequests]
    exact List.mem_singleton_self _
  refine ⟨h, s', ret, hr, hexpect, hrejects, ?_⟩
  exact (rejected_payload_refused_iff mobileEnv session hr).1 1 _ hmem _ s' ret hexpect _ _ hrejects

open RpcSample in
/-- Both halves fail: a response and a request with parameters of a wrong type are accepted. -/
theorem rejected_payloads_accepted :
    ∃ h, Run.Reaches (RpcHistory.step mobileEnv) (fun _ _ => True) ⟨session, []⟩ h ∧
      ¬ ResponsesChecked mobileEnv h ∧ ¬ RequestsChecked mobileEnv := by
  obtain ⟨h, s', ret, hr, hrequests, hexpect, haccepted⟩ := show_accepted
  refine ⟨h, hr, fun hchecked => ?_, fun hchecked => ?_⟩
  · have hmem : ((1 : Int), FunctionRef.name "Show") ∈ h.requests := by
      rw [hrequests]
      exact List.mem_singleton_self _
    have hfalse := hchecked 1 _ hmem [payload] s' ret hexpect firstOccurrence (message payload)
      (schemaRejects_of_validate rfl)
    rw [haccepted] at hfalse
    cases hfalse
  · have hfalse := hchecked "PerformAppServiceInteraction" [.table []] firstOccurrence
      (message (.table [(.str "serviceUri", .bool true)])) (schemaRejects_of_validate rfl)
    cases hfalse

end Atf
