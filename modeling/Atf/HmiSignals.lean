import Atf.HmiAdapterClient
import Atf.Lib.Run

/-!
# What the HMI client has announced

`is_connected_` and the signals `connected` and `disconnected` are changed in three places. The first
`connect` and `connectionLost` change both together. A `connect` that finds the client connected emits
`connected` once more and leaves the flag, which is right; but the same branch is taken when only the
listener thread is still there, after the connection was lost, and then the flag stays false.
-/

namespace Atf
open Lua

/-- A call, with the response it gets. -/
inductive HmiEvent
  | connect (result : Response) (threadStarted : Bool)
  | send (data : Bytes) (result : Response)
  | receive (result : Response)

def Signal.announces {τ : Type} : Signal τ → Bool
  | .connected | .disconnected => true
  | _ => false

/-- The last of the signals `connected` and `disconnected`. -/
def lastAnnounced {τ : Type} (signals : List (Signal τ)) : Option (Signal τ) :=
  (signals.filter Signal.announces).getLast?

@[simp] theorem lastAnnounced_append {τ : Type} (signals : List (Signal τ)) (s : Signal τ) :
    lastAnnounced (signals ++ [s]) = if s.announces then some s else lastAnnounced signals := by
  unfold lastAnnounced
  by_cases h : s.announces <;> simp [List.filter_append, h]

namespace HmiAdapterClient
variable {τ : Type} (toQString : Bytes → τ)

def step (self : HmiAdapterClient τ) : HmiEvent → HmiAdapterClient τ
  | .connect result threadStarted => self.connect result threadStarted
  | .send data result => (self.send toQString data result).1
  | .receive result => (self.receive toQString result).1

def run (self : HmiAdapterClient τ) (events : List HmiEvent) : HmiAdapterClient τ := events.foldl (step toQString) self

/-- The flag says what was announced last. -/
def Agrees (c : HmiAdapterClient τ) : Prop := c.is_connected_ = true ↔ lastAnnounced c.signals = some .connected

/-- A `connect` that succeeds does not find the listener of a lost connection. -/
def Allowed (c : HmiAdapterClient τ) : HmiEvent → Prop
  | .connect result _ => result.2 = error_codes.SUCCESS → c.is_connected_ = false → c.listener_ptr_ = false
  | _ => True

variable {c : HmiAdapterClient τ}

theorem emit_agrees (h : c.Agrees) {s : Signal τ} (hs : s.announces = false) : (c.emit s).Agrees := by
  unfold Agrees emit
  simp only [lastAnnounced_append, hs]
  exact h

theorem emitText_agrees (h : c.Agrees) (text : Bytes) : (c.emitText toQString text).Agrees := by
  unfold emitText
  split
  · exact emit_agrees h rfl
  · exact h

theorem connectionLost_agrees (h : c.Agrees) : c.connectionLost.Agrees := by
  unfold connectionLost
  split
  · simp [Agrees, emit, Signal.announces]
  · exact h

theorem onSent_agrees (h : c.Agrees) (data : Bytes) (result : Response) : (c.onSent toQString data result).Agrees := by
  unfold onSent
  split
  · exact emitText_agrees toQString (emit_agrees h rfl) _
  · split
    · exact connectionLost_agrees h
    · exact h

theorem onReceived_agrees (h : c.Agrees) (result : Response) : (c.onReceived toQString result).Agrees := by
  unfold onReceived
  split
  · exact emitText_agrees toQString h _
  · split
    · exact connectionLost_agrees h
    · exact h

theorem connect_agrees_iff (h : c.Agrees) (result : Response) (threadStarted : Bool) :
    (c.connect result threadStarted).Agrees ↔ c.Allowed (.connect result threadStarted) := by
  by_cases hs : error_codes.SUCCESS = result.2
  · cases hc : c.is_connected_ with
    | true => simp [connect, hc, hs, Agrees, emit, Signal.announces, Allowed]
    | false =>
      cases hl : c.listener_ptr_ with
      | true => simp [connect, hc, hl, hs, Agrees, emit, Signal.announces, Allowed]
      | false => simp [connect, hc, hl, hs, Agrees, emit, Signal.announces, Allowed]
  · have hsame : c.connect result threadStarted = c := by simp [connect, hs]
    rw [hsame]
    exact ⟨fun _ he => absurd he.symm hs, fun _ => h⟩

theorem agrees_step_iff (h : c.Agrees) (e : HmiEvent) : (c.step toQString e).Agrees ↔ c.Allowed e := by
  cases e with
  | connect result threadStarted => exact connect_agrees_iff h result threadStarted
  | send data result =>
    refine ⟨fun _ => trivial, fun _ => ?_⟩
    show (c.send toQString data result).1.Agrees
    unfold send
    split
    · exact onSent_agrees toQString h data result
    · exact h
  | receive result =>
    refine ⟨fun _ => trivial, fun _ => ?_⟩
    show (c.receive toQString result).1.Agrees
    unfold receive
    split
    · exact onReceived_agrees toQString h result
    · exact h

/-- Over any sequence of calls and responses, the flag says what was announced last in every state exactly if no
`connect` succeeded behind a lost connection. -/
theorem announced_iff (events : List HmiEvent) :
    (∀ es, es <+: events → (new.run toQString es).Agrees) ↔ Run.Allows (step toQString) Allowed new events := by
  have hnew : (new : HmiAdapterClient τ).Agrees := by simp [Agrees, new, lastAnnounced]
  exact Run.forall_prefix_iff (I := Agrees) (fun _ e h => agrees_step_iff toQString h e) hnew events

/-- After a lost connection the client announces that it is connected again, and is not. -/
theorem reconnect_unnoticed :
    (new.run id [.connect ([], 0) true, .receive ([], -7), .connect ([], 0) true]).signals =
        [.connected, .disconnected, .connected] ∧
      (new.run id [.connect ([], 0) true, .receive ([], -7), .connect ([], 0) true]).is_connected_ = false ∧
      ¬ (new.run id [.connect ([], 0) true, .receive ([], -7), .connect ([], 0) true]).Agrees := by
  have hs : (new.run id [.connect ([], 0) true, .receive ([], -7), .connect ([], 0) true]).signals =
      [.connected, .disconnected, .connected] := by decide
  have hc : (new.run id [.connect ([], 0) true, .receive ([], -7), .connect ([], 0) true]).is_connected_ = false := by
    decide
  refine ⟨hs, hc, fun h => ?_⟩
  unfold Agrees at h
  rw [hs, hc] at h
  exact absurd (h.mpr rfl) (by decide)

end HmiAdapterClient

end Atf
