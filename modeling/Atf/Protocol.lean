import Atf.Lib.Lua

/-!
# The protocol handler (`protocol_handler.lua`, `ford_protocol_constants.lua`)

`parse` is `ProtocolHandler:Parse`, `compose` is `ProtocolHandler:Compose`. Byte strings are lists of
bytes, raising is `LuaM`, and the two reassembly tables are keyed by the very string the source
builds. What `Parse` calls outside this module is a parameter: `json.decode`, the security manager
(`SecurityManager:encrypt`, `SecurityManager:decrypt`, deterministic functions of the state of the
security layer) and the frame handler, whose calls are recorded in order.
-/

namespace Atf
open Lua

/-! ### Constants -/

def PROTOCOL_HEADER_SIZE : Nat := 12
def BINARY_HEADER_SIZE : Nat := 12
def LAST_FRAME : Nat := 0x00

def FRAME_SIZE : Nat → Option Nat
  | 1 => some 1500
  | 2 => some 1500
  | 3 => some 131084
  | 4 => some 131084
  | 5 => some 131084
  | _ => none

namespace FRAME_TYPE
def CONTROL_FRAME : Nat := 0x00
def SINGLE_FRAME : Nat := 0x01
def FIRST_FRAME : Nat := 0x02
def CONSECUTIVE_FRAME : Nat := 0x03
end FRAME_TYPE

namespace SERVICE_TYPE
def CONTROL : Nat := 0x00
def PCM : Nat := 0x0A
def VIDEO : Nat := 0x0B
def BULK_DATA : Nat := 0x0F
def RPC : Nat := 0x07
end SERVICE_TYPE

namespace FRAME_INFO
def HEARTBEAT : Nat := 0x00
def START_SERVICE : Nat := 0x01
def START_SERVICE_ACK : Nat := 0x02
def START_SERVICE_NACK : Nat := 0x03
def END_SERVICE : Nat := 0x04
def END_SERVICE_ACK : Nat := 0x05
def END_SERVICE_NACK : Nat := 0x06
def HEARTBEAT_ACK : Nat := 0xFF
end FRAME_INFO

namespace BINARY_RPC_TYPE
def REQUEST : Nat := 0x0
def RESPONSE : Nat := 0x1
def NOTIFICATION : Nat := 0x2
end BINARY_RPC_TYPE

namespace BINARY_RPC_FUNCTION_ID
def HANDSHAKE : Nat := 0x1
def INTERNAL_ERROR : Nat := 0x2
end BINARY_RPC_FUNCTION_ID

/-- `SECURITY_STATUS` of `security_constants.lua`. -/
inductive SecurityStatus
  | ERROR | SUCCESS | NO_DATA | NO_ENCRYPTION
deriving DecidableEq, Repr

/-! ### Numbers as bytes -/

def int32ToBytes (val : Int) : LuaM Bytes :=
  char [Bit32.rshift (Bit32.band val 0xff000000) 24, Bit32.rshift (Bit32.band val 0xff0000) 16,
    Bit32.rshift (Bit32.band val 0xff00) 8, Bit32.band val 0xff]

def uint32ToInt32 (val : Int) : Int := if val ≥ 2 ^ 31 then val - 2 ^ 32 else val

def bytesToInt32 (val : Bytes) (offset : Nat) : LuaM Nat := do
  let b0 ← number (byte val offset)
  let b1 ← number (byte val (offset + 1))
  let b2 ← number (byte val (offset + 2))
  let b3 ← number (byte val (offset + 3))
  return Bit32.lshift b0 24 + Bit32.lshift b1 16 + Bit32.lshift b2 8 + b3

/-! ### Messages -/

structure Header where
  version : Nat
  frameType : Nat
  encryption : Bool
  serviceType : Nat
  frameInfo : Nat
  sessionId : Nat
  size : Nat
  messageId : Nat
deriving DecidableEq, Repr

/-- A message table as `Parse` builds it; the fields of the binary header are `nil` until
`parseBinaryHeader` sets them. `decryptionStatus` is `_technical.decryptionStatus`. -/
structure Msg (J : Type) extends Header where
  binaryData : Bytes
  decryptionStatus : SecurityStatus
  rpcType : Option Nat
  rpcFunctionId : Option Nat
  rpcJsonSize : Option Nat
  rpcCorrelationId : Option Int
  payload : Option J
deriving DecidableEq, Repr

structure OutMsg where
  version : Nat
  encryption : Bool
  frameType : Nat
  serviceType : Nat
  frameInfo : Nat
  sessionId : Nat
  messageId : Nat
  rpcType : Option Nat
  rpcFunctionId : Option Nat
  rpcCorrelationId : Option Int
  payload : Option Bytes
  binaryData : Option Bytes
deriving DecidableEq, Repr

/-- The security manager, over the state `δ` of the security layer. `decrypt` answers `some` data
with status `SUCCESS` and `none` with status `ERROR`, its only two; likewise `encrypt`, which also
raises for a session that is not registered. -/
structure Security (δ : Type) where
  decrypt : δ → (data : Bytes) → (sessionId serviceType : Nat) → (isStartServiceAck : Bool) →
    δ × Option Bytes
  encrypt : δ → (data : Bytes) → (sessionId serviceType : Nat) → LuaM (δ × Option Bytes)

/-! ### The protocol header -/

def createProtocolHeader (message : OutMsg) : LuaM Bytes := do
  let res ← char
    [Bit32.bor (Bit32.bor (Bit32.lshift message.version 4) (if message.encryption then 0x08 else 0))
        (Bit32.band message.frameType 0x07),
      message.serviceType, message.frameInfo, message.sessionId]
  let size ← match message.binaryData with
    | some data => int32ToBytes data.length
    | none => char [0, 0, 0, 0]
  let messageId ← int32ToBytes message.messageId
  return res ++ size ++ messageId

def parseProtocolHeader (buffer : Bytes) : LuaM (Option Header) := do
  let size ← bytesToInt32 buffer 5
  if buffer.length < size + PROTOCOL_HEADER_SIZE then return none
  let firstByte ← number (byte buffer 1)
  let serviceType ← number (byte buffer 2)
  let frameInfo ← number (byte buffer 3)
  let sessionId ← number (byte buffer 4)
  let messageId ← bytesToInt32 buffer 9
  return some
    { version := Bit32.rshift (Bit32.band firstByte 0xf0) 4
      frameType := Bit32.band firstByte 0x07
      encryption := Bit32.band firstByte 0x08 == 0x08
      serviceType, frameInfo, sessionId, size, messageId }

/-! ### The binary header -/

def isBinaryDataHasHeader (serviceType : Nat) : Bool :=
  serviceType == SERVICE_TYPE.RPC || serviceType == SERVICE_TYPE.BULK_DATA ||
    serviceType == SERVICE_TYPE.CONTROL

def isHandshakeBinaryData (serviceType : Nat) (rpcFunctionId : Option Nat) (rpcJsonSize : Option Nat) :
    Bool :=
  serviceType == SERVICE_TYPE.CONTROL && rpcFunctionId == some BINARY_RPC_FUNCTION_ID.HANDSHAKE &&
    (rpcJsonSize == none || rpcJsonSize == some 0)

def isInternalErrorQuery (serviceType : Nat) (rpcType rpcFunctionId rpcJsonSize : Option Nat) : Bool :=
  serviceType == SERVICE_TYPE.CONTROL && rpcType == some BINARY_RPC_TYPE.NOTIFICATION &&
    rpcFunctionId == some BINARY_RPC_FUNCTION_ID.INTERNAL_ERROR &&
    (rpcJsonSize == none || rpcJsonSize != some 0)

def hasToBuildBinaryHeader (message : OutMsg) : Bool :=
  if message.frameType == FRAME_TYPE.CONTROL_FRAME then false
  else if isHandshakeBinaryData message.serviceType message.rpcFunctionId none ||
      isInternalErrorQuery message.serviceType message.rpcType message.rpcFunctionId none then true
  else if message.payload.isSome then
    message.serviceType == SERVICE_TYPE.RPC || message.serviceType == SERVICE_TYPE.BULK_DATA
  else false

/-- The bytes `rpcPayload` returns; it also defaults `payload` and `binaryData` to `""`, which
`compose` does where it calls it. -/
def rpcPayload (msg : OutMsg) : LuaM Bytes := do
  let payload := msg.payload.getD []
  let binaryData := msg.binaryData.getD []
  let rpcType ← number msg.rpcType
  let rpcFunctionId ← number msg.rpcFunctionId
  let res ← char
    [Bit32.lshift rpcType 4 + Bit32.band (Bit32.rshift rpcFunctionId 24) 0x0f,
      Bit32.rshift (Bit32.band rpcFunctionId 0xff0000) 16,
      Bit32.rshift (Bit32.band rpcFunctionId 0xff00) 8, Bit32.band rpcFunctionId 0xff]
  let correlationId ← int32ToBytes (uint32ToInt32 (msg.rpcCorrelationId.getD 0))
  let jsonSize ← int32ToBytes payload.length
  return res ++ correlationId ++ jsonSize ++ payload ++ binaryData

section Parse
variable {J : Type}

def parseBinaryHeader (decode : Bytes → Option J) (validateJson : Bool) (message : Msg J) : LuaM (Msg J) := do
  let byte1 ← number (byte message.binaryData 1)
  let rpcType := Bit32.rshift byte1 4
  let word1 ← bytesToInt32 message.binaryData 1
  let rpcFunctionId := Bit32.band word1 0x0fffffff
  let rpcJsonSize ← bytesToInt32 message.binaryData 9
  if message.serviceType == SERVICE_TYPE.CONTROL
      && !isHandshakeBinaryData message.serviceType (some rpcFunctionId) (some rpcJsonSize)
      && !isInternalErrorQuery message.serviceType (some rpcType) (some rpcFunctionId)
        (some rpcJsonSize) then
    return message
  let correlationId ← bytesToInt32 message.binaryData 5
  let payload :=
    if rpcJsonSize > 0 && !validateJson then
      decode (sub message.binaryData (BINARY_HEADER_SIZE + 1) (BINARY_HEADER_SIZE + rpcJsonSize))
    else message.payload
  let binaryData :=
    if message.size > rpcJsonSize + BINARY_HEADER_SIZE then
      subFrom message.binaryData (BINARY_HEADER_SIZE + rpcJsonSize + 1)
    else []
  return { message with
    rpcType := some rpcType
    rpcFunctionId := some rpcFunctionId
    rpcJsonSize := some rpcJsonSize
    rpcCorrelationId := some (uint32ToInt32 correlationId)
    payload, binaryData }

/-! ### Parse -/

/-- What `Parse` is called with besides the bytes, and what it calls. -/
structure ParseEnv (δ J : Type) where
  security : Security δ
  decode : Bytes → Option J
  validateJson : Bool

structure ProtocolHandler where
  buffer : Bytes
  frames : Table String Bytes
  totalSize : Table String Nat

def ProtocolHandler.new : ProtocolHandler := ⟨[], Table.empty, Table.empty⟩

/-- What the loop of `Parse` changes besides the buffer: the security layer, the reassembly tables,
the messages returned so far and the frames the handler was called with so far. -/
structure ParseState (δ J : Type) where
  sec : δ
  frames : Table String Bytes
  totalSize : Table String Nat
  res : List (Msg J)
  calls : List (Msg J)

def isStartServiceAck (frameType frameInfo : Nat) : Bool :=
  frameType == FRAME_TYPE.CONTROL_FRAME && frameInfo == FRAME_INFO.START_SERVICE_ACK

def frameKey (sessionId messageId : Nat) : String :=
  "s" ++ toString sessionId ++ "m" ++ toString messageId

variable {δ : Type}

/-- `decryptPayload`, for the data `Parse` gives it (a string, so never `NO_DATA`), and the data the
message carries afterwards. -/
def decryptPayload (security : Security δ) (sec : δ) (data : Bytes) (message : Header) :
    δ × SecurityStatus × Bytes :=
  if message.encryption then
    match security.decrypt sec data message.sessionId message.serviceType
        (isStartServiceAck message.frameType message.frameInfo) with
    | (sec, some decryptedData) => (sec, .SUCCESS, decryptedData)
    | (sec, none) => (sec, .ERROR, data)
  else (sec, .NO_ENCRYPTION, data)

/-- `if isBinaryDataHasHeader(msg) then parseBinaryHeader(msg, validateJson) end` -/
def ParseEnv.parseData (env : ParseEnv δ J) (msg : Msg J) : LuaM (Msg J) :=
  if isBinaryDataHasHeader msg.serviceType then parseBinaryHeader env.decode env.validateJson msg
  else .ok msg

/-- The body of the loop of `Parse` after the frame has been cut off the buffer. -/
def ParseEnv.handleFrame (env : ParseEnv δ J) (st : ParseState δ J) (frame : Header × Bytes) :
    LuaM (ParseState δ J) := do
  let (header, data) := frame
  let (sec, status, binaryData) := decryptPayload env.security st.sec data header
  let msg : Msg J :=
    { header with
      binaryData, decryptionStatus := status, rpcType := none, rpcFunctionId := none,
      rpcJsonSize := none, rpcCorrelationId := none, payload := none }
  let st := { st with sec, calls := st.calls ++ [msg] }
  if msg.binaryData.length == 0 || status == .ERROR then
    return { st with res := st.res ++ [msg] }
  let key := frameKey msg.sessionId msg.messageId
  if msg.frameType == FRAME_TYPE.CONTROL_FRAME then
    return { st with res := st.res ++ [msg] }
  else if msg.frameType == FRAME_TYPE.FIRST_FRAME then
    return { st with frames := st.frames.set key [], totalSize := st.totalSize.set key msg.size }
  else if msg.frameType == FRAME_TYPE.SINGLE_FRAME then
    let msg ← env.parseData msg
    return { st with res := st.res ++ [msg] }
  else if msg.frameType == FRAME_TYPE.CONSECUTIVE_FRAME then
    let some collected := st.frames key | .error "attempt to concatenate a nil value"
    let data := collected ++ msg.binaryData
    let some total := st.totalSize key | .error "attempt to perform arithmetic on a nil value"
    let size := total + msg.size
    if msg.frameInfo == LAST_FRAME then
      let msg ← env.parseData { msg with binaryData := data, size := size }
      return { st with
        frames := (st.frames.set key data).erase key
        totalSize := (st.totalSize.set key size).erase key
        res := st.res ++ [msg] }
    return { st with frames := st.frames.set key data, totalSize := st.totalSize.set key size }
  return st

/-- The loop of `Parse`. Every iteration takes at least a header off the buffer, so `fuel` as long as
the buffer is enough (`parseLoop_eq`). -/
def ParseEnv.parseLoop (env : ParseEnv δ J) : (fuel : Nat) → Bytes → ParseState δ J →
    LuaM (Bytes × ParseState δ J)
  | 0, buffer, st => return (buffer, st)
  | fuel + 1, buffer, st =>
    if buffer.length ≥ PROTOCOL_HEADER_SIZE then do
      match ← parseProtocolHeader buffer with
      | none => return (buffer, st)
      | some msg =>
        let binaryData := sub buffer (PROTOCOL_HEADER_SIZE + 1) (PROTOCOL_HEADER_SIZE + msg.size)
        let buffer := subFrom buffer (msg.size + PROTOCOL_HEADER_SIZE + 1)
        let st ← env.handleFrame st (msg, binaryData)
        env.parseLoop fuel buffer st
    else return (buffer, st)

/-- What a call of `Parse` leaves behind and returns. -/
structure Parsed (δ J : Type) where
  handler : ProtocolHandler
  sec : δ
  res : List (Msg J)
  calls : List (Msg J)

def ParseEnv.parse (env : ParseEnv δ J) (self : ProtocolHandler) (sec : δ) (binary : Bytes) :
    LuaM (Parsed δ J) := do
  let buffer := self.buffer ++ binary
  let (buffer, st) ← env.parseLoop buffer.length buffer ⟨sec, self.frames, self.totalSize, [], []⟩
  return ⟨⟨buffer, st.frames, st.totalSize⟩, st.sec, st.res, st.calls⟩

end Parse

/-! ### Compose -/

section Compose
variable {δ : Type}

def isStartService (message : OutMsg) : Bool :=
  message.frameType == FRAME_TYPE.CONTROL_FRAME && message.frameInfo == FRAME_INFO.START_SERVICE

def encryptPayload (security : Security δ) (sec : δ) (data : Bytes) (message : OutMsg) :
    LuaM (δ × Bytes) := do
  if message.encryption && !isStartService message then
    match ← security.encrypt sec data message.sessionId message.serviceType with
    | (sec, some encryptedData) => return (sec, encryptedData)
    | (_, none) => .error "Protocol handler: Encryption error"
  else return (sec, data)

def getProtocolFrameSize (version : Nat) : Option Nat := FRAME_SIZE version

def maxPayloadSize (version : Nat) : LuaM Nat :=
  match getProtocolFrameSize version with
  | some size => .ok (size - PROTOCOL_HEADER_SIZE)
  | none => .error "attempt to perform arithmetic on a nil value"

/-- The frame and the message table as `GetBinaryFrame` leaves it. -/
def getBinaryFrame (security : Security δ) (sec : δ) (message : OutMsg) : LuaM (δ × Bytes × OutMsg) := do
  let max_protocol_payload_size ← maxPayloadSize message.version
  let (sec, binaryData) ← match message.binaryData with
    | some data =>
      if data.length > max_protocol_payload_size then
        .error ("Size of current frame is bigger than max frame size for protocol version " ++
          toString message.version)
      else encryptPayload security sec data message
    | none => .ok (sec, [])
  let message := { message with binaryData := some binaryData }
  let header ← createProtocolHeader message
  return (sec, header ++ binaryData, message)

def consecutiveFrameMessage (message : OutMsg) (frame_info : Nat) (dataPart : Bytes) : OutMsg :=
  { version := message.version, encryption := message.encryption
    frameType := FRAME_TYPE.CONSECUTIVE_FRAME, serviceType := message.serviceType
    frameInfo := frame_info, sessionId := message.sessionId, messageId := message.messageId
    rpcType := none, rpcFunctionId := none, rpcCorrelationId := none, payload := none
    binaryData := some dataPart }

/-- The first frame is always unencrypted. -/
def firstFrameMessage (message : OutMsg) (data : Bytes) : OutMsg :=
  { version := message.version, encryption := false, frameType := FRAME_TYPE.FIRST_FRAME
    serviceType := message.serviceType, frameInfo := 0, sessionId := message.sessionId
    messageId := message.messageId, rpcType := none, rpcFunctionId := none, rpcCorrelationId := none
    payload := none, binaryData := some data }

/-- The loop of `Compose` over the data still to be sent, after `countOfDataFrames` frames. It takes
`max > 0` bytes a round, so `fuel` as long as the data is enough. -/
def consecutiveFrames (security : Security δ) (message : OutMsg) (max : Nat) : (fuel : Nat) → δ →
    (countOfDataFrames : Nat) → (data : Bytes) → LuaM (δ × Nat × List Bytes)
  | 0, sec, countOfDataFrames, _ => return (sec, countOfDataFrames, [])
  | fuel + 1, sec, countOfDataFrames, data =>
    if data.length > 0 then do
      let countOfDataFrames := countOfDataFrames + 1
      let dataPart := sub data 1 max
      let data := subFrom data (max + 1)
      let frame_info := if data.length > 0 then (countOfDataFrames - 1) % 255 + 1 else 0
      let (sec, frame, _) ← getBinaryFrame security sec
        (consecutiveFrameMessage message frame_info dataPart)
      let (sec, countOfDataFrames, frames) ←
        consecutiveFrames security message max fuel sec countOfDataFrames data
      return (sec, countOfDataFrames, frame :: frames)
    else return (sec, countOfDataFrames, [])

/-- `Compose` of a message whose data is in `binaryData`. -/
def composeData (security : Security δ) (sec : δ) (kMax_protocol_payload_size : Nat) (message : OutMsg) :
    LuaM (δ × List Bytes × OutMsg) := do
  match message.binaryData with
  | some data =>
    if data.length > kMax_protocol_payload_size then
      let (sec, countOfDataFrames, frames) ←
        consecutiveFrames security message kMax_protocol_payload_size data.length sec 0 data
      let total ← int32ToBytes data.length
      let count ← int32ToBytes countOfDataFrames
      let (sec, first, _) ← getBinaryFrame security sec (firstFrameMessage message (total ++ count))
      return (sec, first :: frames, { message with binaryData := some [] })
    else
      let (sec, frame, message) ← getBinaryFrame security sec message
      return (sec, [frame], message)
  | none =>
    let (sec, frame, message) ← getBinaryFrame security sec message
    return (sec, [frame], message)

/-- The frames of `Compose` and the message table as it leaves it. -/
def compose (security : Security δ) (sec : δ) (message : OutMsg) : LuaM (δ × List Bytes × OutMsg) := do
  let kMax_protocol_payload_size ← maxPayloadSize message.version
  if hasToBuildBinaryHeader message then
    let data ← rpcPayload message
    composeData security sec kMax_protocol_payload_size
      { message with payload := some (message.payload.getD []), binaryData := some data }
  else composeData security sec kMax_protocol_payload_size message

end Compose

end Atf
