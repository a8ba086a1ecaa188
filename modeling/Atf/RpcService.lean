import Atf.Protocol
import Atf.Expectations
import Atf.SchemaValidation
import Atf.CompareValues

/-!
# The RPC service of a mobile session (`services/rpc_service.lua`)

Requests are sent under a correlation id, and the session remembers the function of each id until a
response to it is expected. An expectation of a request or a response carries the functions that were
given to `ValidIf`: the check of the payload, if arguments are expected, and the check of the decryption.

Two names of the source are bound nowhere: `funcName` in `baseExpectResponse` and `func_name` in
`baseExpectRequest`. They are read as globals, and no module assigns them.
-/

namespace Atf
open Lua

/-- What the service uses of other modules: the JSON encoder, the files, the ids of the mobile functions,
the mobile schema and the configuration. -/
structure RpcEnv where
  lib : ValueLib
  encode : Value → Bytes
  files : Table String Bytes
  functionId : Dict String Nat
  mobSchema : Schema
  validateSchema : Bool

structure RpcSession where
  sessionId : Nat
  version : Nat
  messageId : Nat
  correlationId : Int
  corIdFuncMap : Dict Int FunctionRef
  sent : List OutMsg

abbrev RpcCheck := ExpectationData → Msg Value → LuaM (Bool × Option String)

/-- The expectation of an RPC: its name, the `matches` function of its event, which reads the id of the
session when a message arrives, and the functions given to `ValidIf`. -/
structure RpcExpectation where
  name : String
  matchesData : (sessionId : Nat) → Msg Value → Bool
  verifyData : List RpcCheck

namespace RpcExpectation

def validIf (self : RpcExpectation) (func : RpcCheck) : RpcExpectation :=
  { self with verifyData := self.verifyData ++ [func] }

def verdict (self : RpcExpectation) (exp : ExpectationData) (data : Msg Value) : LuaM Bool :=
  self.verifyData.foldlM (fun accepted func => do
    let (valid, _) ← func exp data
    return accepted && valid) true

end RpcExpectation

/-! ### The check of the payload -/

/-- `#args` of `table.pack(...)` -/
def argsLength (args : List Value) : Nat := (args.takeWhile (·.type ≠ "nil")).length

def argsAt (args : List Value) : Nat → Value
  | 0 => .nil
  | i + 1 => args.getD i .nil

/-- The arguments expected at this occurrence; the last ones are for all further occurrences. -/
def expectedArguments (args : List Value) (occurences : Nat) : Value :=
  if occurences > argsLength args then argsAt args (argsLength args) else argsAt args occurences

/-- The function given to `ValidIf` for the payload. `validated` is the function id that `Validate` is
called with, if it is called; the schema is that of the responses in both cases. -/
def payloadCheck (env : RpcEnv) (validated : Option (Option FunctionRef)) (args : List Value) : RpcCheck :=
  fun exp data =>
    let payload := data.payload.getD .nil
    let compared (payload : Value) : Bool × Option String :=
      let (res, msg) := compareValues env.lib (expectedArguments args exp.occurences) payload "payload"
      (res, some msg)
    match validated with
    | some functionId => do
      let (res, err, payload) ←
        validate env.lib env.mobSchema env.validateSchema functionId .response payload
      if !res then return (res, some err) else return compared payload
    | none => .ok (compared payload)

/-- A global variable that is not assigned. -/
def undeclared : Option FunctionRef := none

def isString : Option FunctionRef → Bool
  | some (.name _) => true
  | _ => false

/-- The check in `baseExpectResponse`, which tests the type of the global `funcName`. -/
def responseCheck (env : RpcEnv) (func_name : Option FunctionRef) (args : List Value) : RpcCheck :=
  payloadCheck env (if isString undeclared then some func_name else none) args

/-- The check in `baseExpectRequest`, which hands the global `func_name` to `Validate`. -/
def requestCheck (env : RpcEnv) (funcName : FunctionRef) (args : List Value) : RpcCheck :=
  payloadCheck env (if isString (some funcName) then some undeclared else none) args

def notEncrypted : RpcCheck := fun _ data => .ok (data.decryptionStatus == .NO_ENCRYPTION, none)

inductive CorId
  | number (n : Int)
  | name (s : String)

namespace RpcSession

/-! ### Sending -/

/-- `MobileSessionImpl:Send`, up to the connection, for a message that brings no version of its own. -/
def send (self : RpcSession) (message : OutMsg) : RpcSession :=
  let messageId := self.messageId + 1
  { self with
    messageId
    sent := self.sent ++ [{ message with version := self.version, sessionId := self.sessionId, messageId }] }

/-- The function that `CheckCorrelationID` records for a message. -/
def functionOf (env : RpcEnv) (rpcFunctionId : Nat) : FunctionRef :=
  match env.functionId.find? (fun f => f.2 == rpcFunctionId) with
  | some (fname, _) => .name fname
  | none => .id rpcFunctionId

def checkCorrelationID (self : RpcSession) (env : RpcEnv) (message : OutMsg) : RpcSession :=
  let (self, id) :=
    match message.rpcCorrelationId with
    | some id => (self, id)
    | none => ({ self with correlationId := self.correlationId + 1 }, self.correlationId)
  match self.corIdFuncMap.get id, message.rpcFunctionId with
  | none, some fid => { self with corIdFuncMap := self.corIdFuncMap.set id (functionOf env fid) }
  | _, _ => self

def functionIdOf (env : RpcEnv) : FunctionRef → Option Nat
  | .name func => env.functionId.get func
  | .id n => some n

/-- The content of the file of an RPC, if one is given; `assert(io.open(fileName))` -/
def readFile (env : RpcEnv) : Option String → LuaM (Option Bytes)
  | none => .ok none
  | some fileName =>
    match env.files fileName with
    | some content => .ok (some content)
    | none => .error (fileName ++ ": No such file or directory")

def sendRPC (self : RpcSession) (env : RpcEnv) (func : FunctionRef) (arguments : Value)
    (fileName : Option String) (encrypt : Bool) : LuaM (RpcSession × Int) := do
  let self := { self with correlationId := self.correlationId + 1 }
  let correlationId := self.correlationId
  -- the version, the frame type and the ids of session and message are filled in by `send`
  let msg : OutMsg :=
    { version := self.version, encryption := encrypt, frameType := 1, serviceType := SERVICE_TYPE.RPC
      frameInfo := 0, sessionId := self.sessionId, messageId := self.messageId
      rpcType := some BINARY_RPC_TYPE.REQUEST, rpcFunctionId := functionIdOf env func
      rpcCorrelationId := some correlationId, payload := some (env.encode arguments), binaryData := none }
  let self := self.checkCorrelationID env msg
  let binaryData ← readFile env fileName
  return (self.send { msg with binaryData }, correlationId)

/-! ### Expecting -/

def baseExpectRequest (env : RpcEnv) (funcName : FunctionRef) (args : List Value) : RpcExpectation :=
  let ret : RpcExpectation :=
    { name := funcName.toKey.toString ++ " request"
      matchesData := fun sessionId data =>
        data.rpcFunctionId == functionIdOf env funcName && data.sessionId == sessionId &&
          data.rpcType == some BINARY_RPC_TYPE.REQUEST
      verifyData := [] }
  if argsLength args > 0 then ret.validIf (requestCheck env funcName args) else ret

def expectRequest (env : RpcEnv) (funcName : FunctionRef) (args : List Value) : RpcExpectation :=
  (baseExpectRequest env funcName args).validIf notEncrypted

/-- What `baseExpectResponse` finds in the map for its `cor_id`: the function, the ids that are expected,
and the map afterwards. An id is taken from the map; ids found by name stay, since the table that
`table.removeKey` returns is not used. -/
def lookupResponse (self : RpcSession) : CorId → Option FunctionRef × List Int × RpcSession
  | .number c =>
    match self.corIdFuncMap.get c with
    | some func => (some func, [c], { self with corIdFuncMap := self.corIdFuncMap.filter (·.1 ≠ c) })
    | none => (none, [c], self)
  | .name s =>
    match self.corIdFuncMap.filter (·.2 = .name s) with
    | [] => (none, [], self)
    | found => (some (.name s), found.map Prod.fst, self)

def baseExpectResponse (self : RpcSession) (env : RpcEnv) (cor_id : CorId) (args : List Value) :
    LuaM (RpcSession × RpcExpectation) :=
  let (func_name, ids, self) := self.lookupResponse cor_id
  match ids with
  | [] => .error "ExpectResponse: argument 1 (cor_id) must be number"
  | c :: _ =>
    let ret : RpcExpectation :=
      { name := "Response to " ++ toString c
        matchesData := fun sessionId data =>
          ids.any fun v => data.rpcCorrelationId == some v && data.sessionId == sessionId &&
            data.rpcType == some BINARY_RPC_TYPE.RESPONSE
        verifyData := [] }
    .ok (self, if argsLength args > 0 then ret.validIf (responseCheck env func_name args) else ret)

def expectResponse (self : RpcSession) (env : RpcEnv) (cor_id : CorId) (args : List Value) :
    LuaM (RpcSession × RpcExpectation) :=
  (self.baseExpectResponse env cor_id args).map fun (self, ret) => (self, ret.validIf notEncrypted)

end RpcSession

end Atf
