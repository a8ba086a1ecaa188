import Atf.RemoteClient

/-!
# The message broker (`message_broker.cpp`)

One endpoint of `MessageBroker`: its context, the websocket session of its listener and the queue
`msg_queue_[endpoint]` of messages that could not be written. The RPC server has one thread, so a call of
`Send` or `Receive` is one step; what the threads of the session do comes between two calls, and whether a
write succeeds is part of the event. `sends` and `written` are the record of the calls of `Send` and of what
went to the websocket; a message carries the number of its call for that record only.
-/

namespace Atf
open Lua

/-- The session of the listener; `GetSession` makes one that is not open when there is none. -/
structure WebsocketSession where
  isOpen : Bool
  msg_queue_ : List Bytes

namespace WebsocketSession

/-- `OnRead` without an error. -/
def onRead (self : WebsocketSession) (data : Bytes) : WebsocketSession :=
  if data.length ≠ 0 then { self with msg_queue_ := self.msg_queue_ ++ [data] } else self

def getMessage (self : WebsocketSession) : WebsocketSession × Bytes :=
  match self.msg_queue_ with
  | [] => (self, [])
  | msg :: queue => ({ self with msg_queue_ := queue }, msg)

end WebsocketSession

abbrev Numbered := Nat × Bytes

structure Broker where
  context : Bool
  session : WebsocketSession
  pending : List Numbered
  sends : List Bytes
  written : List Numbered

namespace Broker

def new : Broker := ⟨false, ⟨false, []⟩, [], [], []⟩

def closeConnection (self : Broker) : Broker :=
  if self.context then { self with context := false, session := ⟨false, []⟩, pending := [] } else self

def openConnection (self : Broker) : Broker :=
  { self.closeConnection with context := true, session := ⟨false, []⟩ }

def write (self : Broker) (message : Numbered) (ok : Bool) : Broker × Int :=
  if ok then ({ self with written := self.written ++ [message] }, error_codes.SUCCESS)
  else (self, error_codes.WRITE_FAILURE)

def getMessage (self : Broker) : Broker × Bytes :=
  ({ self with session := self.session.getMessage.1 }, self.session.getMessage.2)

def send (self : Broker) (data : Bytes) (ok : Bool) : Broker × Response :=
  let message : Numbered := (self.sends.length, data)
  let self := { self with sends := self.sends ++ [data] }
  if !self.context then (self, ([], error_codes.NO_CONNECTION))
  else if self.session.isOpen then
    let (self, result) := self.write message ok
    let (self, msg) := self.getMessage
    (self, (msg, result))
  else ({ self with pending := self.pending ++ [message] }, ([], error_codes.WRITE_FAILURE))

/-- The loop of `FlushPendingMsg`, where `ok n` is the outcome of its `n`-th write: the messages written and
those left in the queue. -/
def flushLoop (ok : Nat → Bool) : (n : Nat) → List Numbered → List Numbered × List Numbered
  | _, [] => ([], [])
  | n, message :: queue =>
    if ok n then
      let (done, left) := flushLoop ok (n + 1) queue
      (message :: done, left)
    else ([], message :: queue)

def flushPendingMsg (self : Broker) (ok : Nat → Bool) : Broker :=
  if self.session.isOpen then
    let (done, left) := flushLoop ok 0 self.pending
    { self with pending := left, written := self.written ++ done }
  else self

def receive (self : Broker) (ok : Nat → Bool) : Broker × Response :=
  if !self.context then (self, ([], error_codes.NO_CONNECTION))
  else
    let (self, msg) := (self.flushPendingMsg ok).getMessage
    (self, (msg, error_codes.SUCCESS))

end Broker

/-- What can happen at the endpoint. `sessionOpened` is `OnResolve` with the handshake of a new session. -/
inductive BrokerEvent
  | openConnection | closeConnection
  | sessionOpened | sessionClosed
  | read (data : Bytes)
  | send (data : Bytes) (ok : Bool)
  | receive (ok : Nat → Bool)

namespace Broker

def step (self : Broker) : BrokerEvent → Broker
  | .openConnection => self.openConnection
  | .closeConnection => self.closeConnection
  | .sessionOpened => { self with session := ⟨true, []⟩ }
  | .sessionClosed => { self with session := { self.session with isOpen := false } }
  | .read data => { self with session := self.session.onRead data }
  | .send data ok => (self.send data ok).1
  | .receive ok => (self.receive ok).1

def run (self : Broker) (events : List BrokerEvent) : Broker := events.foldl step self

end Broker

end Atf
