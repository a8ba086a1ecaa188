import Atf.HmiAdapterClient
import Atf.MessageBroker
import Atf.Lib.Run
import Mathlib.Data.List.TakeWhile

/-!
# The way of an HMI message

The listener thread calls `receive` and the main thread `send`. A call is a request, a step of the server
and the handling of the response, and both calls hand out the next message of the session's queue. What the
session has read is then, in this order, what was emitted, what is in responses under way and what is in the
queue (`Conserved`). Three things break it: `send` takes a message also when its write failed, and the client
drops the text of that response; a thread can handle its response before the one that was served earlier;
and a text ends at its first zero byte. `reads` and `inFlight` are the record of what the session read and of
the messages in responses, in the order of the server's steps.
-/

namespace Atf
open Lua

inductive HmiThread
  | listener | main
deriving DecidableEq, Repr

inductive Call (α : Type)
  | idle
  | requested (request : α)
  | responded (request : α) (result : Response)

structure HmiSystem (τ : Type) where
  client : HmiAdapterClient τ
  broker : Broker
  listener : Call Unit
  main : Call Bytes
  reads : List Bytes
  inFlight : List (HmiThread × Bytes)

inductive HmiSystemEvent
  | read (data : Bytes)
  | sessionClosed
  | startReceive | serveReceive (ok : Nat → Bool) | finishReceive
  | startSend (data : Bytes) | serveSend (ok : Bool) | finishSend

/-- The message that the client takes from a response. -/
def carried (result : Response) : List Bytes :=
  if error_codes.SUCCESS = result.2 ∧ result.1.length ≠ 0 then [result.1] else []

namespace HmiSystem
variable {τ : Type} (toQString : Bytes → τ)

/-- The client is connected, and the session of the broker is open. -/
def start : HmiSystem τ :=
  ⟨⟨true, true, [.connected]⟩, ⟨true, ⟨true, []⟩, [], [], []⟩, .idle, .idle, [], []⟩

def served (self : HmiSystem τ) (thread : HmiThread) (result : Broker × Response) : HmiSystem τ :=
  { self with
    broker := result.1
    inFlight := self.inFlight ++ (carried result.2).map fun message => (thread, message) }

def handled (self : HmiSystem τ) (thread : HmiThread) (client : HmiAdapterClient τ) (result : Response) : HmiSystem τ :=
  { self with
    client := client
    inFlight := if carried result = [] then self.inFlight else self.inFlight.eraseP (·.1 = thread) }

/-- An event that does not fit the state of its thread changes nothing. -/
def step (self : HmiSystem τ) : HmiSystemEvent → HmiSystem τ
  | .read data =>
    { self with
      broker := self.broker.step (.read data)
      reads := if data.length ≠ 0 then self.reads ++ [data] else self.reads }
  | .sessionClosed => { self with broker := self.broker.step .sessionClosed }
  | .startReceive =>
    match self.listener with
    | .idle => if self.client.is_connected_ then { self with listener := .requested () } else self
    | _ => self
  | .serveReceive ok =>
    match self.listener with
    | .requested _ =>
      { self.served .listener (self.broker.receive ok) with listener := .responded () (self.broker.receive ok).2 }
    | _ => self
  | .finishReceive =>
    match self.listener with
    | .responded _ result =>
      { self.handled .listener (self.client.onReceived toQString result) result with listener := .idle }
    | _ => self
  | .startSend data =>
    match self.main with
    | .idle => if self.client.is_connected_ then { self with main := .requested data } else self
    | _ => self
  | .serveSend ok =>
    match self.main with
    | .requested data =>
      { self.served .main (self.broker.send data ok) with main := .responded data (self.broker.send data ok).2 }
    | _ => self
  | .finishSend =>
    match self.main with
    | .responded data result =>
      { self.handled .main (self.client.onSent toQString data result) result with main := .idle }
    | _ => self

def run (self : HmiSystem τ) (events : List HmiSystemEvent) : HmiSystem τ := events.foldl (step toQString) self

end HmiSystem

/-! ### What the client emits -/

def Signal.message? {τ : Type} : Signal τ → Option τ
  | .textMessageReceived message => some message
  | _ => none

namespace HmiAdapterClient
variable {τ : Type} {toQString : Bytes → τ} {c : HmiAdapterClient τ}

/-- The emissions of `textMessageReceived`. -/
def texts (c : HmiAdapterClient τ) : List τ := c.signals.filterMap Signal.message?

theorem emit_texts (s : Signal τ) : (c.emit s).texts = c.texts ++ s.message?.toList := by
  cases s <;> simp [emit, texts, Signal.message?]

theorem connectionLost_texts : c.connectionLost.texts = c.texts := by
  unfold connectionLost
  split
  · exact (emit_texts .disconnected).trans (List.append_nil _)
  · rfl

/-- After a response with `SUCCESS`. -/
theorem emitText_texts {result : Response} (hs : error_codes.SUCCESS = result.2) :
    (c.emitText toQString result.1).texts = c.texts ++ (carried result).map fun m => toQString (cStr m) := by
  unfold emitText carried
  by_cases hl : result.1.length ≠ 0
  · rw [if_pos hl, if_pos ⟨hs, hl⟩]
    exact emit_texts _
  · rw [if_neg hl, if_neg fun h => hl h.2]
    simp

theorem carried_of_ne {result : Response} (hs : error_codes.SUCCESS ≠ result.2) : carried result = [] :=
  if_neg fun h => hs h.1

theorem onReceived_texts (result : Response) :
    (c.onReceived toQString result).texts = c.texts ++ (carried result).map fun m => toQString (cStr m) := by
  unfold onReceived
  split
  · rename_i hs
    exact emitText_texts hs
  · rename_i hs
    rw [carried_of_ne hs, List.map_nil, List.append_nil]
    split
    · exact connectionLost_texts
    · rfl

theorem onSent_texts (data : Bytes) (result : Response) :
    (c.onSent toQString data result).texts = c.texts ++ (carried result).map fun m => toQString (cStr m) := by
  unfold onSent
  split
  · rename_i hs
    rw [emitText_texts hs, emit_texts]
    simp [Signal.message?]
  · rename_i hs
    rw [carried_of_ne hs, List.map_nil, List.append_nil]
    split
    · exact connectionLost_texts
    · rfl

end HmiAdapterClient

theorem cStr_eq_self {s : Bytes} (h : 0 ∉ s) : cStr s = s := by
  unfold cStr
  refine List.takeWhile_eq_self_iff.mpr fun b hb => ?_
  simp only [ne_eq, decide_not, Bool.not_eq_eq_eq_not, Bool.not_true, decide_eq_false_iff_not]
  rintro rfl
  exact h hb

/-! ### What the server hands out -/

namespace Broker
variable {b : Broker}

theorem getMessage_carried (h : ∀ m ∈ b.session.msg_queue_, m ≠ []) :
    carried (b.getMessage.2, error_codes.SUCCESS) ++ b.getMessage.1.session.msg_queue_ = b.session.msg_queue_ := by
  cases hq : b.session.msg_queue_ with
  | nil => simp [getMessage, WebsocketSession.getMessage, hq, carried]
  | cons m queue =>
    have hm : m ≠ [] := h m (by simp [hq])
    simp [getMessage, WebsocketSession.getMessage, hq, carried, hm]

theorem receive_carried (ok : Nat → Bool) (h : ∀ m ∈ b.session.msg_queue_, m ≠ []) :
    carried (b.receive ok).2 ++ (b.receive ok).1.session.msg_queue_ = b.session.msg_queue_ := by
  have hflush : (b.flushPendingMsg ok).session = b.session := by
    unfold flushPendingMsg
    split <;> rfl
  unfold receive
  split
  · simp [carried]
  · rw [← hflush] at h ⊢
    exact getMessage_carried h

/-- A write that fails must not find a message to hand out. -/
theorem send_carried (data : Bytes) {ok : Bool} (h : ∀ m ∈ b.session.msg_queue_, m ≠ [])
    (hok : b.context = true → b.session.isOpen = true → ok = false → b.session.msg_queue_ = []) :
    carried (b.send data ok).2 ++ (b.send data ok).1.session.msg_queue_ = b.session.msg_queue_ := by
  cases hc : b.context with
  | false => simp [send, hc, carried]
  | true =>
    cases ho : b.session.isOpen with
    | false => simp [send, hc, ho, carried]
    | true =>
      cases ok with
      | false =>
        have hq := hok hc ho rfl
        simp [send, hc, ho, write, getMessage, WebsocketSession.getMessage, hq, carried]
      | true =>
        have hg := getMessage_carried h
        simpa [send, hc, ho, write, getMessage] using hg

end Broker

/-! ### Steps and runs -/

namespace HmiSystem
variable {τ : Type} (toQString : Bytes → τ) {s : HmiSystem τ}

/-- The emissions are, in order and each once, the texts of a prefix of what the session read. -/
def Delivers (s : HmiSystem τ) : Prop := s.client.texts <+: s.reads.map toQString

/-- What the session read is what was emitted, what is in responses and what is in the queue. -/
structure Conserved (s : HmiSystem τ) : Prop where
  reads : ∃ emitted, s.client.texts = emitted.map toQString ∧
    s.reads = emitted ++ s.inFlight.map Prod.snd ++ s.broker.session.msg_queue_
  plain : ∀ m ∈ s.reads, m ≠ [] ∧ 0 ∉ m

/-- No message read has a zero byte, no `send` whose write fails takes a message, and a response with a message is
handled only when its message is the oldest under way. -/
def Allowed (s : HmiSystem τ) : HmiSystemEvent → Prop
  | .read data => 0 ∉ data
  | .serveSend ok => ∀ data, s.main = .requested data →
      s.broker.context = true → s.broker.session.isOpen = true → ok = false → s.broker.session.msg_queue_ = []
  | .finishReceive => ∀ result, s.listener = .responded () result → carried result ≠ [] →
      s.inFlight.head? = some (.listener, result.1)
  | .finishSend => ∀ data result, s.main = .responded data result → carried result ≠ [] →
      s.inFlight.head? = some (.main, result.1)
  | _ => True

variable {toQString}

theorem start_conserved : (start : HmiSystem τ).Conserved toQString := ⟨⟨[], rfl, rfl⟩, fun _ hm => by cases hm⟩

theorem Conserved.delivers (h : s.Conserved toQString) : s.Delivers toQString := by
  obtain ⟨emitted, htexts, hreads⟩ := h.reads
  rw [Delivers, htexts, hreads, List.append_assoc, List.map_append]
  exact List.prefix_append _ _

theorem Conserved.queue_ne (h : s.Conserved toQString) : ∀ m ∈ s.broker.session.msg_queue_, m ≠ [] := by
  obtain ⟨emitted, -, hreads⟩ := h.reads
  exact fun m hm => (h.plain m (by rw [hreads]; exact List.mem_append_right _ hm)).1

theorem Conserved.served (h : s.Conserved toQString) (thread : HmiThread) {result : Broker × Response}
    (hq : carried result.2 ++ result.1.session.msg_queue_ = s.broker.session.msg_queue_) :
    (s.served thread result).Conserved toQString where
  reads := by
    obtain ⟨emitted, htexts, hreads⟩ := h.reads
    refine ⟨emitted, htexts, ?_⟩
    rw [HmiSystem.served, hreads, ← hq]
    simp
  plain := h.plain

theorem Conserved.handled (h : s.Conserved toQString) {thread : HmiThread} {client : HmiAdapterClient τ}
    {result : Response}
    (htexts : client.texts = s.client.texts ++ (carried result).map fun m => toQString (cStr m))
    (hhead : carried result ≠ [] → s.inFlight.head? = some (thread, result.1)) :
    (s.handled thread client result).Conserved toQString where
  plain := h.plain
  reads := by
    obtain ⟨emitted, hemitted, hreads⟩ := h.reads
    by_cases hc : carried result = []
    · refine ⟨emitted, ?_, ?_⟩
      · rw [HmiSystem.handled, htexts, hc, List.map_nil, List.append_nil, hemitted]
      · simp [HmiSystem.handled, hc, hreads]
    · obtain ⟨rest, hrest⟩ := List.head?_eq_some_iff.mp (hhead hc)
      have hcarried : carried result = [result.1] := by
        unfold carried at hc ⊢
        split at hc
        · rename_i hs
          rw [if_pos hs]
        · exact absurd rfl hc
      have hmem : result.1 ∈ s.reads := by simp [hreads, hrest]
      -- the text is that of the whole message, which has no zero byte
      refine ⟨emitted ++ [result.1], ?_, ?_⟩
      · rw [HmiSystem.handled, htexts, hcarried, hemitted, List.map_singleton, cStr_eq_self (h.plain _ hmem).2,
          List.map_append, List.map_singleton]
      · simp [HmiSystem.handled, hcarried, hreads, hrest]

theorem Conserved.read (h : s.Conserved toQString) {data : Bytes} (hz : 0 ∉ data) :
    (s.step toQString (.read data)).Conserved toQString := by
  obtain ⟨emitted, htexts, hreads⟩ := h.reads
  by_cases hl : data = []
  · refine ⟨⟨emitted, htexts, ?_⟩, fun m hm => ?_⟩
    · simp [step, Broker.step, WebsocketSession.onRead, hl, hreads]
    · simp only [step, hl] at hm
      exact h.plain m hm
  · refine ⟨⟨emitted, htexts, ?_⟩, fun m hm => ?_⟩
    · simp [step, Broker.step, WebsocketSession.onRead, hl, hreads]
    · simp only [step, ne_eq, List.length_eq_zero_iff, hl, not_false_eq_true, if_true, List.mem_append,
        List.mem_singleton] at hm
      rcases hm with hm | rfl
      · exact h.plain m hm
      · exact ⟨hl, hz⟩

theorem Conserved.step (h : s.Conserved toQString) {e : HmiSystemEvent} (ha : s.Allowed e) :
    (s.step toQString e).Conserved toQString := by
  cases e with
  | read data => exact h.read ha
  | sessionClosed => exact ⟨h.reads, h.plain⟩
  | startReceive =>
    simp only [HmiSystem.step]
    split
    · split
      · exact ⟨h.reads, h.plain⟩
      · exact h
    · exact h
  | serveReceive ok =>
    simp only [HmiSystem.step]
    split
    · have hs := h.served .listener (Broker.receive_carried ok h.queue_ne)
      exact ⟨hs.reads, hs.plain⟩
    · exact h
  | finishReceive =>
    simp only [HmiSystem.step]
    split
    · rename_i result heq
      have hs := h.handled (HmiAdapterClient.onReceived_texts result) (ha result heq)
      exact ⟨hs.reads, hs.plain⟩
    · exact h
  | startSend data =>
    simp only [HmiSystem.step]
    split
    · split
      · exact ⟨h.reads, h.plain⟩
      · exact h
    · exact h
  | serveSend ok =>
    simp only [HmiSystem.step]
    split
    · rename_i data heq
      have hs := h.served .main (Broker.send_carried data h.queue_ne (ha data heq))
      exact ⟨hs.reads, hs.plain⟩
    · exact h
  | finishSend =>
    simp only [HmiSystem.step]
    split
    · rename_i data result heq
      have hs := h.handled (HmiAdapterClient.onSent_texts data result) (ha data result heq)
      exact ⟨hs.reads, hs.plain⟩
    · exact h

/-- In every run all of whose steps are allowed, the emissions are a prefix of the messages read, in every state and
whatever text a C string makes. -/
theorem emissions_prefix (toQString : Bytes → τ) (events : List HmiSystemEvent)
    (ha : Run.Allows (step toQString) Allowed start events) :
    ∀ es, es <+: events → (start.run toQString es).Delivers toQString := by
  intro es hes
  have hc : (start.run toQString es).Conserved toQString :=
    Run.Allows.foldl (I := Conserved toQString) (ha.of_prefix hes) start_conserved fun _ _ h he => h.step he
  exact hc.delivers

/-- A message handed out by `send` and the next one by `receive`, each response handled before the next step. -/
theorem emissions_prefix_alternating :
    (start.run id [.read [1], .read [2], .startSend [9], .serveSend true, .finishSend, .startReceive,
      .serveReceive fun _ => true, .finishReceive]).Delivers id := by
  refine emissions_prefix id [.read [1], .read [2], .startSend [9], .serveSend true, .finishSend, .startReceive,
    .serveReceive fun _ => true, .finishReceive] ?_ _ List.prefix_rfl
  have h1 : (0 : UInt8) ∉ ([1] : Bytes) := by decide
  have h2 : (0 : UInt8) ∉ ([2] : Bytes) := by decide
  refine ⟨h1, h2, trivial, ?_, ?_, trivial, trivial, ?_, trivial⟩
  · intro data _ _ _ hok
    cases hok
  · intro data result hresp _
    cases hresp
    rfl
  · intro result hresp _
    cases hresp
    rfl

/-- A `send` whose write fails takes the first message and the client drops it; and when the listener has asked
first but handles its response last, the two messages change places. -/
theorem message_lost_or_overtaken :
    (start.run id [.read [1], .read [2], .startSend [9], .serveSend false, .finishSend, .startReceive,
        .serveReceive fun _ => true, .finishReceive]).client.texts = [[2]] ∧
      (start.run id [.read [1], .read [2], .startSend [9], .startReceive, .serveReceive fun _ => true,
        .serveSend true, .finishSend, .finishReceive]).client.texts = [[2], [1]] ∧
      ¬ (start.run id [.read [1], .read [2], .startSend [9], .serveSend false, .finishSend, .startReceive,
        .serveReceive fun _ => true, .finishReceive]).Delivers id := by
  refine ⟨by decide, by decide, ?_⟩
  rintro ⟨rest, hrest⟩
  cases hrest

end HmiSystem

end Atf
