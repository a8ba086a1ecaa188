import Atf.DispatchFifo

/-!
# No lost wake-up

Each event sends at most one message, so a frame left behind has to be sent by a later acknowledgement.
The loop of `bytesWritten` takes as many rounds as there are generators, and the turn goes round all of
them, so it reaches the buffer of the connection unless it passes a message first
(`tryLoop_progress`). When it reaches the buffer and passes nothing, either the buffer is empty or its
next frame is larger than the window; a frame is never larger than the initial window, so then some bytes
are in flight.
-/

namespace Atf
open Lua Interleave

namespace FileConnection
variable {δ : Type} {security : Security δ} {c c' : FileConnection δ} {clock : Nat → Int}
  {written : List Bytes}

/-! ### One round -/

/-- The storage has nothing left to send, or waits for a larger window. -/
def Blocked (written : List Bytes) (c : FileConnection δ) : Prop :=
  proj .fbuf c.sent = written ∨ ∃ m ∈ written, c.bufferSize < m.length

theorem Keeps.blocked (hk : c.Keeps c') (h : c.Blocked written) : c'.Blocked written := by
  rw [Blocked, hk.sent, hk.bufferSize]
  exact h

theorem tryNext_false (h : c.tryNext security clock = .ok (false, c')) :
    Keeps { c with idx := c.nextIdx } c' := by
  obtain ⟨g, msg, timeout, c₁, -, hget, hcase⟩ := tryNext_cases h
  have hk := getMessage_keeps hget
  rcases hcase with ⟨hd, -⟩ | ⟨-, m, -, -, -, rfl⟩ | ⟨-, -, timer, rfl⟩
  · cases hd
  · have hk' := keepMessage_keeps c₁ m g
    exact ⟨hk'.generators.trans hk.generators, hk'.idx.trans hk.idx, hk'.bufferSize.trans hk.bufferSize,
      hk'.sent.trans hk.sent⟩
  · exact ⟨hk.generators, hk.idx, hk.bufferSize, hk.sent⟩

theorem tryNext_true (h : c.tryNext security clock = .ok (true, c')) : c.passed < c'.passed := by
  obtain ⟨g, msg, timeout, c₁, -, hget, hcase⟩ := tryNext_cases h
  have hk := getMessage_keeps hget
  rcases hcase with ⟨-, m, -, hne, -, rfl⟩ | ⟨hd, -⟩ | ⟨hd, -⟩
  · have hp : c₁.passed = c.passed := by rw [passed, passed, hk.sent]
    have := List.length_pos_of_ne_nil hne
    rw [passed_pass, hp]
    omega
  · cases hd
  · cases hd

theorem tryNext_fbuf (hf : Fifo security written c) (hg : c.generators[c.nextIdx - 1]? = some .fbuf)
    (h : c.tryNext security clock = .ok (false, c')) : c'.Blocked written := by
  obtain ⟨g, msg, timeout, c₁, hg', hget, hcase⟩ := tryNext_cases h
  rw [hg] at hg'
  cases hg'
  obtain ⟨⟨msg, fbuf⟩, hm, hget⟩ := bind_eq_ok.mp hget
  cases hget
  rcases hf.storage.getMessage hf.sendable with ⟨hnone, -, hout⟩ | ⟨m, fs, hsome, hmem, -, -⟩
  · cases hnone.symm.trans hm
    rcases hcase with ⟨hd, -⟩ | ⟨-, m, hm', -⟩ | ⟨-, -, timer, rfl⟩
    · cases hd
    · cases hm'
    · exact .inl hout
  · cases hsome.symm.trans hm
    rcases hcase with ⟨hd, -⟩ | ⟨-, m', hm', -, hlt, rfl⟩ | ⟨-, hnil, -⟩
    · cases hd
    · cases hm'
      exact .inr ⟨m, hmem, hlt⟩
    · exact absurd hnil (hf.sendable m hmem).1

/-! ### The turn -/

/-- The number of rounds before the one at position `p` of `n`, when the turn is at `i`. -/
def away (n i p : Nat) : Nat := if i ≤ p then p - i else if i < n then n - i + p else p

theorem away_lt {n i p : Nat} (hp : p < n) : away n i p < n := by
  unfold away
  split_ifs <;> omega

/-- A round is at position `p`, or comes one nearer to it. -/
theorem away_nextIdx {p : Nat} (hp : p < c.generators.length) :
    c.nextIdx - 1 = p ∨ away c.generators.length c.nextIdx p < away c.generators.length c.idx p := by
  unfold nextIdx away
  split_ifs <;> omega

theorem tryLoop_blocked {k : Nat} (hb : c.Blocked written) (h : tryLoop security clock k c = .ok c') :
    c.passed < c'.passed ∨ c'.Blocked written := by
  induction k generalizing c with
  | zero =>
    cases h
    exact .inr hb
  | succ k ih =>
    obtain ⟨⟨done, c₁⟩, hn, h⟩ := bind_eq_ok.mp h
    cases done with
    | true =>
      cases h
      exact .inl (tryNext_true hn)
    | false =>
      have hkeep := tryNext_false hn
      have hpassed : c₁.passed = c.passed := hkeep.passed
      rw [← hpassed]
      exact ih (hkeep.blocked hb) h

theorem tryLoop_progress (hf : Fifo security written c) {p k : Nat} (hp : c.generators[p]? = some .fbuf)
    (hk : away c.generators.length c.idx p < k) (h : tryLoop security clock k c = .ok c') :
    c.passed < c'.passed ∨ c'.Blocked written := by
  induction k generalizing c with
  | zero => omega
  | succ k ih =>
    obtain ⟨⟨done, c₁⟩, hn, h⟩ := bind_eq_ok.mp h
    have hlt := (List.getElem?_eq_some_iff.mp hp).1
    cases done with
    | true =>
      cases h
      exact .inl (tryNext_true hn)
    | false =>
      have hkeep := tryNext_false hn
      have hpassed : c₁.passed = c.passed := hkeep.passed
      rw [← hpassed]
      rcases away_nextIdx hlt with hhere | hnear
      · -- the rest of the loop passes a message or leaves the buffer blocked as it is
        have hblocked := tryNext_fbuf hf (by rw [hhere]; exact hp) hn
        exact tryLoop_blocked hblocked h
      · refine ih (hf.tryNext hn) (by rw [hkeep.generators]; exact hp) ?_ h
        rw [hkeep.generators, hkeep.idx]
        show away c.generators.length c.nextIdx p < k
        omega

/-! ### Runs -/

/-- A frame left behind has bytes in flight before it. -/
structure Awake (window : Nat) (security : Security δ) (h : History δ) : Prop where
  credit : Credit window h.acked h.conn
  fifo : Fifo security h.written h.conn
  fits : ∀ m ∈ h.written, m.length ≤ window
  inFlight : proj .fbuf h.conn.sent ≠ h.written → h.acked < h.conn.passed

variable {window acked : Nat}

theorem bytesWritten_progress {n : Nat} (hc : Credit window acked c) (hf : Fifo security written c)
    (hw : ∀ m ∈ written, m.length ≤ window) (hn : acked + n ≤ c.passed)
    (h : c.bytesWritten security n clock = .ok c') (hleft : proj .fbuf c'.sent ≠ written) :
    acked + n < c'.passed := by
  have hc' := hc.bytesWritten hn h
  have hne : c.generators ≠ [] := List.ne_nil_of_mem hc.mapped
  simp only [bytesWritten, beq_iff_eq, List.length_eq_zero_iff, if_neg hne] at h
  obtain ⟨p, hp⟩ := List.mem_iff_getElem?.mp hc.mapped
  have hlt := (List.getElem?_eq_some_iff.mp hp).1
  have hf' : Fifo security written { c with bufferSize := c.bufferSize + n } :=
    ⟨hf.sendable, hf.storage, hf.streams, hf.fresh⟩
  rcases tryLoop_progress hf' hp (away_lt hlt) h with hlt | hsent | ⟨m, hm, hlarge⟩
  · exact Nat.lt_of_le_of_lt hn hlt
  · exact absurd hsent hleft
  · have hfit := hw m hm
    have hb := hc'.balance
    omega

/-- Only bytes in flight are acknowledged, and the frames given to `Send` are not empty and fit the initial
window. -/
def SendsFitting (window : Nat) (h : History δ) (e : Event) : Prop :=
  AcksInFlight h e ∧ ∀ m ∈ e.frames, m ≠ [] ∧ m.length ≤ window

instance (h : History δ) (e : Event) : Decidable (SendsFitting window h e) := instDecidableAnd

theorem Awake.step {h h' : History δ} {e : Event} (ha : Awake window security h) (hw : window < 2 ^ 32)
    (hg : SendsFitting window h e) (hs : h.step security e = .ok h') : Awake window security h' := by
  obtain ⟨hack, hfit⟩ := hg
  have hd : Sendable e.frames := fun m hm => ⟨(hfit m hm).1, Nat.lt_of_le_of_lt (hfit m hm).2 hw⟩
  have hfits : ∀ m ∈ h.written ++ e.frames, m.length ≤ window := by
    intro m hm
    rcases List.mem_append.mp hm with hm | hm
    · exact ha.fits m hm
    · exact (hfit m hm).2
  obtain ⟨hconn, hwritten, hacked⟩ := History.step_eq_ok hs
  refine ⟨ha.credit.step hack hs, ha.fifo.step hd hs, hwritten ▸ hfits, ?_⟩
  have hle := ha.credit.acked_le
  cases e with
  | send data clock =>
    obtain ⟨fbuf, hw, hp⟩ := send_eq_ok hconn
    have hc : Credit window h.acked { h.conn with fbuf := fbuf.flush } :=
      ha.credit.keeps ⟨rfl, rfl, rfl, rfl⟩
    rw [hwritten, hacked]
    exact bytesWritten_progress hc (ha.fifo.send hd hw) hfits hle hp
  | startStreaming session version service encryption filename content bandwidth ts clock =>
    obtain ⟨stream, hnew, hp⟩ := startStreaming_eq_ok hconn
    rw [hwritten.trans (List.append_nil _), hacked]
    exact bytesWritten_progress (ha.credit.mapFile stream)
      (ha.fifo.mapFile (FileStream.Holds.start hnew)) ha.fits hle hp
  | stopStreaming filename =>
    obtain ⟨n, hn⟩ := stopStreaming_eq_ok hconn
    rw [hwritten.trans (List.append_nil _), hacked, hn]
    exact ha.inFlight
  | timeout clock =>
    rw [hwritten.trans (List.append_nil _), hacked]
    exact bytesWritten_progress ha.credit ha.fifo ha.fits hle hconn
  | bytesWritten n clock =>
    rw [hwritten.trans (List.append_nil _), hacked]
    exact bytesWritten_progress ha.credit ha.fifo ha.fits hack hconn

/-- In every reachable state, a written frame that has not been sent waits for bytes that are in flight. -/
theorem frame_left_in_flight {version : Nat} (hv : FRAME_SIZE version = some window) {sec : δ} {h : History δ}
    (hr : Run.Reaches (History.step security) (SendsFitting window) (.start window sec) h)
    (hleft : proj .fbuf h.conn.sent ≠ h.written) : h.acked < h.conn.passed := by
  have hw : window < 2 ^ 32 := by
    unfold FRAME_SIZE at hv
    split at hv <;> cases hv <;> decide
  have h0 : Awake window security (.start window sec) := by
    refine ⟨.start window sec, .start security window sec, ?_, fun h => absurd rfl h⟩
    intro m hm
    cases hm
  exact (hr.invariant h0 fun _ _ _ ha hg hs => ha.step hw hg hs).inFlight hleft

/-- The second of two frames waits, with the first in flight. -/
theorem frame_left_in_flight_sample :
    ∃ h, Run.exec (History.step transparent) (SendsFitting 1500) (.start 1500 ())
        [.send [[1, 2], [3]] fun _ => 0] = some h ∧
      proj .fbuf h.conn.sent ≠ h.written ∧ h.acked < h.conn.passed := by
  have hrun : (Run.exec (History.step transparent) (SendsFitting 1500) (.start 1500 ())
      [.send [[1, 2], [3]] fun _ => 0]).map (fun h => (proj .fbuf h.conn.sent, h.written)) =
      some ([[1, 2]], [[1, 2], [3]]) := by decide +kernel
  obtain ⟨h, hh, heq⟩ := Option.map_eq_some_iff.mp hrun
  obtain ⟨hsent, hwritten⟩ := Prod.mk.inj heq
  have hleft : proj .fbuf h.conn.sent ≠ h.written := by
    rw [hsent, hwritten]
    decide
  exact ⟨h, hh, hleft, frame_left_in_flight (show FRAME_SIZE 2 = some 1500 from rfl) (.of_exec .start hh) hleft⟩

end FileConnection

end Atf
