import Atf.Protocol

/-!
# The message dispatcher (`message_dispatcher.lua`, `file_connection.lua`)

Frames given to `Send` go through a length-prefixed buffer file, streamed files are read in chunks,
and `bytesWritten` takes at most one message at a time from these generators, in turn, when the window
has room for it. A message that does not fit is put back in the one `keep` slot of its generator.

Generators are objects in the source; here `Gen` names them, and the streams made so far stay in a list.
`sent` is what the adapter under the connection was given, with the generator it came from. The table
`mapped` of the dispatcher itself is written and never read, so only that of the connection is here.
-/

namespace Atf
open Lua

/-! ### The buffer file -/

/-- `FileStorage`: the buffer file, what has been written to it and not flushed, and the position of the
read handle. -/
structure FileStorage where
  file : Bytes
  unflushed : Bytes
  rpos : Nat
  keep : Option Bytes
deriving DecidableEq, Repr

namespace FileStorage

def new : FileStorage := ⟨[], [], 0, none⟩

def keepMessage (self : FileStorage) (msg : Bytes) : FileStorage := { self with keep := some msg }

/-- `self.rfd:read(n)`: nothing at the end of the file. -/
def read (self : FileStorage) (n : Nat) : Option Bytes × FileStorage :=
  match Lua.read self.file self.rpos n with
  | some data => (some data, { self with rpos := self.rpos + data.length })
  | none => (none, self)

def getMessage (self : FileStorage) : LuaM (Option Bytes × FileStorage) := do
  match self.keep with
  | some res => return (some res, { self with keep := none })
  | none =>
    let (len, self) := self.read 4
    match len with
    | some len =>
      let b4 ← number (byte len 4)
      let b3 ← number (byte len 3)
      let b2 ← number (byte len 2)
      let b1 ← number (byte len 1)
      let len := Bit32.lshift b4 24 + Bit32.lshift b3 16 + Bit32.lshift b2 8 + b1
      return self.read len
    | none => return (none, self)

def writeMessage (self : FileStorage) (msg : Bytes) : LuaM FileStorage := do
  let len ← char
    [Bit32.band msg.length 0xff, Bit32.band (Bit32.rshift msg.length 8) 0xff,
      Bit32.band (Bit32.rshift msg.length 16) 0xff, Bit32.band (Bit32.rshift msg.length 24) 0xff]
  return { self with unflushed := self.unflushed ++ len ++ msg }

def flush (self : FileStorage) : FileStorage :=
  { self with file := self.file ++ self.unflushed, unflushed := [] }

end FileStorage

/-! ### Streamed files -/

structure FileStream where
  filename : String
  version : Nat
  service : Nat
  sessionId : Nat
  encryption : Bool
  bandwidth : Nat
  bytesSent : Nat
  ts : Int
  chunksize : Nat
  messageId : Nat
  content : Bytes
  rpos : Nat
  keep : Option Bytes
deriving DecidableEq, Repr

namespace FileStream
variable {δ : Type}

/-- `MD.FileStream`; `content` is what `io.open` finds under the name. -/
def new (filename : String) (content : Option Bytes) (version sessionId service : Nat) (encryption : Bool)
    (bandwidth : Nat) (ts : Int) : LuaM FileStream := do
  let some size := FRAME_SIZE version | .error "attempt to perform arithmetic on a nil value"
  let frameSize := size - PROTOCOL_HEADER_SIZE
  let chunkSize := if frameSize < bandwidth then frameSize else bandwidth
  let some content := content | .error (filename ++ ": No such file or directory")
  -- `math.floor(chunkSize / numberOfChunksPerSecond + 0.5)`
  let chunksize := (chunkSize + 1) / 2
  return { filename, version, service, sessionId, encryption, bandwidth, bytesSent := 0, ts, chunksize
           messageId := 1, content, rpos := 0, keep := none }

def keepMessage (self : FileStream) (msg : Bytes) : FileStream := { self with keep := some msg }

/-- `bytes / (timespan / 1000) > bandwidth`, with `x / 0` infinite for `x > 0` and no number for
`x = 0`. -/
def exceeds (bytes : Nat) (timespan : Int) (bandwidth : Nat) : Bool :=
  if timespan = 0 then bytes > 0
  else if timespan > 0 then bytes * 1000 > bandwidth * timespan
  else bytes * 1000 < bandwidth * timespan

def header (self : FileStream) (messageId : Nat) (data : Bytes) : OutMsg :=
  { version := self.version, encryption := self.encryption, sessionId := self.sessionId, frameInfo := 0
    frameType := 1, serviceType := self.service, binaryData := some data, messageId
    rpcType := none, rpcFunctionId := none, rpcCorrelationId := none, payload := none }

/-- `GetMessage`: the message, and the timeout for the next one. -/
def getMessage (security : Security δ) (sec : δ) (timestamp : Int) (self : FileStream) :
    LuaM (δ × Option Bytes × Option Nat × FileStream) := do
  let timespan := timestamp - self.ts
  if exceeds (self.bytesSent + self.chunksize) timespan self.bandwidth then
    return (sec, none, some 250, self)
  match self.keep with
  | some res => return (sec, some res, none, { self with keep := none })
  | none =>
    match Lua.read self.content self.rpos self.chunksize with
    | some data =>
      let self := { self with
        rpos := self.rpos + data.length, bytesSent := self.bytesSent + data.length
        messageId := self.messageId + 1 }
      let (sec, frames, _) ← compose security sec (self.header self.messageId data)
      return (sec, some frames.flatten, none, self)
    | none => return (sec, none, none, self)

end FileStream

/-! ### The connection -/

/-- A generator: the buffer of the connection, or the `n`-th stream made. -/
inductive Gen
  | fbuf
  | stream (n : Nat)
deriving DecidableEq, Repr

structure FileConnection (δ : Type) where
  sec : δ
  fbuf : FileStorage
  streams : List FileStream
  generators : List Gen
  idx : Nat
  bufferSize : Int
  timer : Option Nat
  mapped : Table String Nat
  sent : List (Gen × Bytes)

namespace FileConnection
variable {δ : Type} (security : Security δ)

/-- `bufferSize` is `FRAME_SIZE["P" .. config.defaultProtocolVersion]`. -/
def new (bufferSize : Nat) (sec : δ) : FileConnection δ :=
  { sec, fbuf := .new, streams := [], generators := [.fbuf], idx := 0, bufferSize, timer := none
    mapped := Table.empty, sent := [] }

/-- `generator:GetMessage()`; `clock n` is what `timestamp()` returns to stream `n`. -/
def getMessage (self : FileConnection δ) (clock : Nat → Int) :
    Gen → LuaM (Option Bytes × Option Nat × FileConnection δ)
  | .fbuf => do
    let (msg, fbuf) ← self.fbuf.getMessage
    return (msg, none, { self with fbuf })
  | .stream n => do
    let some stream := self.streams[n]? | .error "attempt to index a nil value"
    let (sec, msg, timeout, stream) ← stream.getMessage security self.sec (clock n)
    return (msg, timeout, { self with sec, streams := self.streams.set n stream })

def keepMessage (self : FileConnection δ) (msg : Bytes) : Gen → FileConnection δ
  | .fbuf => { self with fbuf := self.fbuf.keepMessage msg }
  | .stream n => { self with streams := self.streams.modify n (·.keepMessage msg) }

/-- `res.connection:Send({ msg })` after the window was charged. -/
def pass (self : FileConnection δ) (g : Gen) (msg : Bytes) : FileConnection δ :=
  { self with bufferSize := self.bufferSize - msg.length, sent := self.sent ++ [(g, msg)] }

def nextIdx (self : FileConnection δ) : Nat :=
  if self.idx < self.generators.length then self.idx + 1 else 1

/-- The body of the loop of `bytesWritten`; `true` is its `break`. -/
def tryNext (self : FileConnection δ) (clock : Nat → Int) : LuaM (Bool × FileConnection δ) := do
  let self := { self with idx := self.nextIdx }
  let some g := self.generators[self.idx - 1]? | .error "attempt to index a nil value"
  let (msg, timeout, self) ← self.getMessage security clock g
  let msg := msg.getD []
  if msg.length > 0 then
    if self.bufferSize ≥ msg.length then return (true, self.pass g msg)
    else return (false, self.keepMessage msg g)
  else
    match timeout with
    | some timeout => return (false, { self with timer := some timeout })
    | none => return (false, self)

def tryLoop (clock : Nat → Int) : Nat → FileConnection δ → LuaM (FileConnection δ)
  | 0, self => return self
  | n + 1, self => do
    let (done, self) ← self.tryNext security clock
    if done then return self else tryLoop clock n self

def bytesWritten (self : FileConnection δ) (c : Nat) (clock : Nat → Int) : LuaM (FileConnection δ) :=
  if self.generators.length == 0 then return self
  else tryLoop security clock self.generators.length { self with bufferSize := self.bufferSize + c }

def pulse (self : FileConnection δ) (clock : Nat → Int) : LuaM (FileConnection δ) :=
  self.bytesWritten security 0 clock

def send (self : FileConnection δ) (data : List Bytes) (clock : Nat → Int) : LuaM (FileConnection δ) := do
  let fbuf ← data.foldlM (fun fbuf chunk => fbuf.writeMessage chunk) self.fbuf
  pulse security { self with fbuf := fbuf.flush } clock

def mapFile (self : FileConnection δ) (stream : FileStream) : FileConnection δ :=
  { self with
    streams := self.streams ++ [stream]
    generators := self.generators ++ [.stream self.streams.length]
    mapped := self.mapped.set stream.filename self.streams.length }

def startStreaming (self : FileConnection δ) (session version service : Nat) (encryption : Bool)
    (filename : String) (content : Option Bytes) (bandwidth : Option Nat) (ts : Int) (clock : Nat → Int) :
    LuaM (FileConnection δ) := do
  let stream ← FileStream.new filename content version session service encryption
    (bandwidth.getD (30 * 1024)) ts
  pulse security (self.mapFile stream) clock

def stopStreaming (self : FileConnection δ) (filename : String) : LuaM (FileConnection δ) :=
  match self.mapped filename with
  | none => .error ("Wrong ATF usage. You are trying to stop stream file \"" ++ filename ++
      "\" which isn't being streamed right now")
  | some n => return { self with
      generators := self.generators.erase (.stream n), mapped := self.mapped.erase filename }

/-! ### Events -/

inductive Event
  | send (data : List Bytes) (clock : Nat → Int)
  | startStreaming (session version service : Nat) (encryption : Bool) (filename : String)
    (content : Option Bytes) (bandwidth : Option Nat) (ts : Int) (clock : Nat → Int)
  | stopStreaming (filename : String)
  | timeout (clock : Nat → Int)
  | bytesWritten (c : Nat) (clock : Nat → Int)

def handle (self : FileConnection δ) : Event → LuaM (FileConnection δ)
  | .send data clock => self.send security data clock
  | .startStreaming session version service encryption filename content bandwidth ts clock =>
    self.startStreaming security session version service encryption filename content bandwidth ts clock
  | .stopStreaming filename => self.stopStreaming filename
  | .timeout clock => self.bytesWritten security 0 clock
  | .bytesWritten c clock => self.bytesWritten security c clock

end FileConnection

end Atf
