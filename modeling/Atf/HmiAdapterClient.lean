import Atf.RemoteClient

/-!
# The HMI client (`hmi_adapter_client.cc`)

Every operation makes one call of the remote client and acts on the response. The part behind the call is a
function of its own (`onSent`, `onReceived`), because the listener thread and the main thread may both be
waiting for a response. The signals are kept in the order in which they are emitted. A `QString` is made
from the C string of the response, so it knows nothing of what stands behind the first zero byte; what text it is
(`toQString`) is left open.
-/

namespace Atf
open Lua

inductive Signal (τ : Type)
  | connected | disconnected
  | bytesWritten (data : Nat)
  | textMessageReceived (message : τ)
deriving DecidableEq, Repr

/-- What `c_str()` shows of a string to a reader that stops at a zero byte. -/
def cStr (s : Bytes) : Bytes := s.takeWhile (· ≠ 0)

structure HmiAdapterClient (τ : Type) where
  is_connected_ : Bool
  listener_ptr_ : Bool
  signals : List (Signal τ)

namespace HmiAdapterClient
variable {τ : Type}

def new : HmiAdapterClient τ := ⟨false, false, []⟩

def emit (self : HmiAdapterClient τ) (signal : Signal τ) : HmiAdapterClient τ :=
  { self with signals := self.signals ++ [signal] }

/-- `threadStarted` is whether the listener thread could be created; the exception is caught. -/
def connect (self : HmiAdapterClient τ) (result : Response) (threadStarted : Bool) : HmiAdapterClient τ :=
  if self.is_connected_ || self.listener_ptr_ then
    if error_codes.SUCCESS = result.2 then self.emit .connected else self
  else if error_codes.SUCCESS = result.2 then
    { emit { self with is_connected_ := true } .connected with listener_ptr_ := threadStarted }
  else self

def connectionLost (self : HmiAdapterClient τ) : HmiAdapterClient τ :=
  if self.is_connected_ then emit { self with is_connected_ := false } .disconnected else self

variable (toQString : Bytes → τ)

def emitText (self : HmiAdapterClient τ) (text : Bytes) : HmiAdapterClient τ :=
  if text.length ≠ 0 then self.emit (.textMessageReceived (toQString (cStr text))) else self

/-- `send` from the response on. -/
def onSent (self : HmiAdapterClient τ) (data : Bytes) (result : Response) : HmiAdapterClient τ :=
  if error_codes.SUCCESS = result.2 then (self.emit (.bytesWritten data.length)).emitText toQString result.1
  else if error_codes.NO_CONNECTION = result.2 then self.connectionLost
  else self

/-- `receive` from the response on. -/
def onReceived (self : HmiAdapterClient τ) (result : Response) : HmiAdapterClient τ :=
  if error_codes.SUCCESS = result.2 then self.emitText toQString result.1
  else if error_codes.NO_CONNECTION = result.2 then self.connectionLost
  else self

/-- `send` with the response its call gets, and the code it returns. -/
def send (self : HmiAdapterClient τ) (data : Bytes) (result : Response) : HmiAdapterClient τ × Int :=
  if self.is_connected_ then (self.onSent toQString data result, result.2) else (self, error_codes.NO_CONNECTION)

def receive (self : HmiAdapterClient τ) (result : Response) : HmiAdapterClient τ × Response :=
  if self.is_connected_ then (self.onReceived toQString result, result) else (self, ([], error_codes.NO_CONNECTION))

end HmiAdapterClient

end Atf
