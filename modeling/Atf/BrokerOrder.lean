import Atf.MessageBroker
import Atf.Lib.Run
import Mathlib.Data.List.Pairwise

/-!
# The order of what the broker writes

Messages parked while the session is not open wait in a queue, in the order of their `Send` calls, and only
`Receive` empties it. `Send` on an open session does not look at the queue. As long as it never finds a
message there, everything written was sent before everything parked (`Broker.Lined`), and the order is kept.
Once it does, its message goes out in front of the parked ones, and the next flush of the queue completes
the inversion.
-/

namespace Atf
open Lua

namespace Broker

/-- What went to the websocket is in the order of the `Send` calls, each message at most once. -/
structure InOrder (b : Broker) : Prop where
  order : b.written.Pairwise fun p q => p.1 < q.1
  sent : ∀ p ∈ b.written, b.sends[p.1]? = some p.2

/-- Written and parked messages, in this order, are messages of successive calls. -/
structure Lined (b : Broker) : Prop where
  order : (b.written ++ b.pending).Pairwise fun p q => p.1 < q.1
  sent : ∀ p ∈ b.written ++ b.pending, b.sends[p.1]? = some p.2

theorem Lined.inOrder {b : Broker} (h : b.Lined) : b.InOrder where
  order := (List.pairwise_append.mp h.order).1
  sent p hp := h.sent p (List.mem_append_left _ hp)

theorem new_lined : Broker.new.Lined := ⟨.nil, fun _ hp => by cases hp⟩

/-- Of a broker with the same record, only a part of the queue may be left. -/
theorem Lined.of_sublist {b b' : Broker} (h : b.Lined) (hsends : b'.sends = b.sends)
    (hsub : (b'.written ++ b'.pending).Sublist (b.written ++ b.pending)) : b'.Lined where
  order := h.order.sublist hsub
  sent p hp := by
    rw [hsends]
    exact h.sent p (hsub.subset hp)

/-- A call of `Send` that adds its message behind all others, or nowhere. -/
theorem Lined.push {b b' : Broker} (h : b.Lined) (data : Bytes) (hsends : b'.sends = b.sends ++ [data])
    (hsub : (b'.written ++ b'.pending).Sublist (b.written ++ b.pending ++ [(b.sends.length, data)])) :
    b'.Lined := by
  have hlt : ∀ p ∈ b.written ++ b.pending, p.1 < b.sends.length := fun p hp =>
    (List.getElem?_eq_some_iff.mp (h.sent p hp)).1
  refine ⟨List.Pairwise.sublist hsub ?_, fun p hp => ?_⟩
  · refine List.pairwise_append.mpr ⟨h.order, List.pairwise_singleton _ _, ?_⟩
    intro p hp q hq
    rw [List.mem_singleton.mp hq]
    exact hlt p hp
  · rw [hsends]
    rcases List.mem_append.mp (hsub.subset hp) with hp | hp
    · rw [List.getElem?_append_left (hlt p hp)]
      exact h.sent p hp
    · rw [List.mem_singleton.mp hp]
      simp

/-! ### Steps -/

theorem flushLoop_append (ok : Nat → Bool) (n : Nat) (queue : List Numbered) :
    (flushLoop ok n queue).1 ++ (flushLoop ok n queue).2 = queue := by
  induction queue generalizing n with
  | nil => rfl
  | cons message queue ih =>
    unfold flushLoop
    split
    · simp [ih (n + 1)]
    · rfl

theorem receive_lined {b : Broker} (h : b.Lined) (ok : Nat → Bool) : (b.receive ok).1.Lined := by
  unfold receive
  split
  · exact h
  · refine h.of_sublist ?_ ?_
    · simp only [getMessage, flushPendingMsg]
      split <;> rfl
    · simp only [getMessage, flushPendingMsg]
      split
      · simp [flushLoop_append]
      · exact List.Sublist.refl _

/-- `Send` does not write past a parked message. -/
def Allowed (b : Broker) : BrokerEvent → Prop
  | .send _ ok => b.context = true → b.session.isOpen = true → ok = true → b.pending = []
  | _ => True

theorem send_lined {b : Broker} (h : b.Lined) {data : Bytes} {ok : Bool} (ha : b.Allowed (.send data ok)) :
    (b.send data ok).1.Lined := by
  cases hc : b.context with
  | false =>
    refine h.push data ?_ ?_ <;> simp [send, hc]
  | true =>
    cases ho : b.session.isOpen with
    | false => refine h.push data ?_ ?_ <;> simp [send, hc, ho]
    | true =>
      cases ok with
      | false => refine h.push data ?_ ?_ <;> simp [send, hc, ho, write, getMessage]
      | true =>
        have hp : b.pending = [] := ha hc ho rfl
        refine h.push data ?_ ?_ <;> simp [send, hc, ho, write, getMessage, hp]

theorem step_lined {b : Broker} (h : b.Lined) {e : BrokerEvent} (ha : b.Allowed e) : (b.step e).Lined := by
  cases e with
  | openConnection =>
    refine h.of_sublist ?_ ?_
    · simp only [step, openConnection, closeConnection]
      split <;> rfl
    · simp only [step, openConnection, closeConnection]
      split <;> simp
  | closeConnection =>
    refine h.of_sublist ?_ ?_
    · simp only [step, closeConnection]
      split <;> rfl
    · simp only [step, closeConnection]
      split <;> simp
  | sessionOpened => exact h.of_sublist rfl (List.Sublist.refl _)
  | sessionClosed => exact h.of_sublist rfl (List.Sublist.refl _)
  | read data => exact h.of_sublist rfl (List.Sublist.refl _)
  | send data ok => exact send_lined h ha
  | receive ok => exact receive_lined h ok

/-! ### Runs -/

/-- No `Send` of the run writes past a parked message. -/
def AllAllowed (b : Broker) (events : List BrokerEvent) : Prop := Run.Allows step Allowed b events

theorem run_lined {b : Broker} (h : b.Lined) {events : List BrokerEvent} (ha : b.AllAllowed events) :
    (b.run events).Lined :=
  Run.Allows.foldl (I := Lined) ha h fun _ _ hb he => step_lined hb he

/-- The message that `Send` wrote past a parked one is in front of it once the queue is flushed. -/
theorem overtaken_not_inOrder {b : Broker} (h : b.Lined) {data : Bytes} (hc : b.context = true)
    (ho : b.session.isOpen = true) (hp : b.pending ≠ []) {ok : Nat → Bool} (hok : ok 0 = true) :
    ¬ ((b.send data true).1.receive ok).1.InOrder := by
  obtain ⟨message, queue, hq⟩ := List.exists_cons_of_ne_nil hp
  have hlt : message.1 < b.sends.length :=
    (List.getElem?_eq_some_iff.mp (h.sent message (by simp [hq]))).1
  intro hin
  have hgm : ∀ s : WebsocketSession, s.getMessage.1.isOpen = s.isOpen := by
    intro s
    unfold WebsocketSession.getMessage
    split <;> rfl
  have horder := hin.order
  simp only [send, hc, ho, write, getMessage, receive, flushPendingMsg, hgm, hq, flushLoop, hok, Bool.not_true,
    Bool.false_eq_true, if_false, if_true] at horder
  rw [List.append_assoc, List.pairwise_append] at horder
  have hpair := horder.2.1
  simp only [List.singleton_append, List.pairwise_cons, List.mem_cons, forall_eq_or_imp] at hpair
  have := hpair.1.1
  omega

end Broker

/-- In every run in which no `Send` writes past a parked message, the order is kept in every state; and a `Send`
that does breaks it with the next `Receive` that writes. -/
theorem outbound_order (events : List BrokerEvent) :
    (Broker.new.AllAllowed events → ∀ es, es <+: events → (Broker.new.run es).InOrder) ∧
      ∀ es data ok, Broker.new.AllAllowed es → ¬ (Broker.new.run es).Allowed (.send data true) → ok 0 = true →
        ¬ (Broker.new.run (es ++ [.send data true, .receive ok])).InOrder := by
  refine ⟨fun ha es hes => ?_, fun es data ok ha hna hok => ?_⟩
  · exact (Broker.run_lined Broker.new_lined (Run.Allows.of_prefix hes ha)).inOrder
  · have hl := Broker.run_lined Broker.new_lined ha
    have hna : ¬ ((Broker.new.run es).context = true → (Broker.new.run es).session.isOpen = true →
      true = true → (Broker.new.run es).pending = []) := hna
    simp only [Classical.not_imp, true_implies] at hna
    obtain ⟨hc, ho, hp⟩ := hna
    have hrun : Broker.new.run (es ++ [.send data true, .receive ok]) =
        (((Broker.new.run es).send data true).1.receive ok).1 := by
      simp [Broker.run, Broker.step]
    rw [hrun]
    exact Broker.overtaken_not_inOrder hl hc ho hp hok

/-- A flush between the opening of the session and the next `Send` keeps the order. -/
theorem outbound_order_flushed :
    (Broker.new.run [.openConnection, .send [1] true, .sessionOpened, .receive fun _ => true,
      .send [2] true]).InOrder := by
  refine (outbound_order [.openConnection, .send [1] true, .sessionOpened, .receive fun _ => true,
    .send [2] true]).1 ?_ _ List.prefix_rfl
  simp only [Broker.AllAllowed, Run.Allows, Broker.Allowed, true_and, and_true]
  refine ⟨fun _ ho => ?_, fun _ _ _ => rfl⟩
  cases ho

/-- A message parked before the session opened is written after a message sent later. -/
theorem parked_message_overtaken :
    (Broker.new.run [.openConnection, .send [1] true, .sessionOpened, .send [2] true,
        .receive fun _ => true]).written = [(1, [2]), (0, [1])] ∧
      ¬ (Broker.new.run [.openConnection, .send [1] true, .sessionOpened, .send [2] true,
        .receive fun _ => true]).InOrder := by
  have hw : (Broker.new.run [.openConnection, .send [1] true, .sessionOpened, .send [2] true,
      .receive fun _ => true]).written = [(1, [2]), (0, [1])] := by decide
  refine ⟨hw, fun h => ?_⟩
  have horder := h.order
  rw [hw] at horder
  simp at horder

end Atf
