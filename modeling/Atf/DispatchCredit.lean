import Atf.MessageDispatcher
import Atf.Lib.Run

/-!
# Window credit

One round of the loop of `bytesWritten` either passes a message to the adapter and charges the window
for it, or changes neither (`tryNext_cases`). The buffer of the connection is never unmapped, so the
early return that would drop an acknowledgement is never taken, and the window plus the bytes in flight
stay what the window was at the start.
-/

namespace Atf
open Lua

namespace FileConnection
variable {δ : Type} {security : Security δ} {c c' : FileConnection δ} {clock : Nat → Int}

/-- `c'` has the same generators, turn, window and adapter as `c`. -/
structure Keeps (c c' : FileConnection δ) : Prop where
  generators : c'.generators = c.generators
  idx : c'.idx = c.idx
  bufferSize : c'.bufferSize = c.bufferSize
  sent : c'.sent = c.sent

theorem getMessage_keeps {g : Gen} {msg : Option Bytes} {timeout : Option Nat}
    (h : c.getMessage security clock g = .ok (msg, timeout, c')) : c.Keeps c' := by
  cases g with
  | fbuf =>
    obtain ⟨⟨msg, fbuf⟩, -, h⟩ := bind_eq_ok.mp h
    cases h
    exact ⟨rfl, rfl, rfl, rfl⟩
  | stream n =>
    unfold getMessage at h
    dsimp only at h
    split at h
    · obtain ⟨⟨sec, msg, timeout, s⟩, -, h⟩ := bind_eq_ok.mp h
      cases h
      exact ⟨rfl, rfl, rfl, rfl⟩
    · cases h

theorem keepMessage_keeps (c : FileConnection δ) (msg : Bytes) (g : Gen) : c.Keeps (c.keepMessage msg g) := by
  cases g <;> exact ⟨rfl, rfl, rfl, rfl⟩

/-- What one round of the loop can do: pass the message of the next generator, put it back because it
does not fit, or find none. -/
theorem tryNext_cases {done : Bool} (h : c.tryNext security clock = .ok (done, c')) :
    ∃ g msg timeout c₁, c.generators[c.nextIdx - 1]? = some g ∧
      getMessage security { c with idx := c.nextIdx } clock g = .ok (msg, timeout, c₁) ∧
      ((done = true ∧ ∃ m, msg = some m ∧ m ≠ [] ∧ (m.length : Int) ≤ c₁.bufferSize ∧ c' = c₁.pass g m) ∨
        (done = false ∧ ∃ m, msg = some m ∧ m ≠ [] ∧ c₁.bufferSize < m.length ∧ c' = c₁.keepMessage m g) ∨
        (done = false ∧ msg.getD [] = [] ∧ ∃ timer, c' = { c₁ with timer })) := by
  unfold tryNext at h
  dsimp only at h
  split at h
  · rename_i g hg
    obtain ⟨⟨msg, timeout, c₁⟩, hm, h⟩ := bind_eq_ok.mp h
    refine ⟨g, msg, timeout, c₁, hg, hm, ?_⟩
    by_cases hpos : (msg.getD []).length > 0
    · obtain ⟨m, rfl⟩ : ∃ m, msg = some m := by
        cases msg with
        | none => simp at hpos
        | some m => exact ⟨m, rfl⟩
      have hne : m ≠ [] := List.ne_nil_of_length_pos hpos
      rw [if_pos hpos] at h
      by_cases hfit : c₁.bufferSize ≥ m.length
      · simp only [Option.getD_some, if_pos hfit] at h
        cases h
        exact .inl ⟨rfl, m, rfl, hne, hfit, rfl⟩
      · simp only [Option.getD_some, if_neg hfit] at h
        cases h
        exact .inr (.inl ⟨rfl, m, rfl, hne, by omega, rfl⟩)
    · rw [if_neg hpos] at h
      have hnil : msg.getD [] = [] := List.length_eq_zero_iff.mp (by omega)
      cases timeout with
      | none => cases h; exact .inr (.inr ⟨rfl, hnil, _, rfl⟩)
      | some t => cases h; exact .inr (.inr ⟨rfl, hnil, _, rfl⟩)
  · cases h

theorem tryLoop_invariant {P : FileConnection δ → Prop}
    (hP : ∀ c done c', P c → tryNext security c clock = .ok (done, c') → P c') {n : Nat} (hc : P c)
    (h : tryLoop security clock n c = .ok c') : P c' := by
  induction n generalizing c with
  | zero => cases h; exact hc
  | succ n ih =>
    obtain ⟨⟨done, c₁⟩, hn, h⟩ := bind_eq_ok.mp h
    have h1 := hP c done c₁ hc hn
    cases done with
    | true => cases h; exact h1
    | false => exact ih h1 h

/-! ### The ledger -/

def passed (c : FileConnection δ) : Nat := (c.sent.map fun p => p.2.length).sum

theorem Keeps.passed (hk : c.Keeps c') : c'.passed = c.passed := by
  rw [FileConnection.passed, FileConnection.passed, hk.sent]

theorem passed_pass (c : FileConnection δ) (g : Gen) (m : Bytes) : (c.pass g m).passed = c.passed + m.length := by
  simp [passed, pass]

/-- The window and the bytes in flight add up to the initial window. -/
structure Credit (window acked : Nat) (c : FileConnection δ) : Prop where
  mapped : .fbuf ∈ c.generators
  acked_le : acked ≤ c.passed
  balance : c.bufferSize = window - ((c.passed : Int) - acked)
  nonneg : 0 ≤ c.bufferSize

namespace Credit
variable {window acked : Nat}

theorem keeps (hc : Credit window acked c) (h : c.Keeps c') : Credit window acked c' := by
  have hp : c'.passed = c.passed := by rw [passed, passed, h.sent]
  refine ⟨h.generators ▸ hc.mapped, hp ▸ hc.acked_le, ?_, h.bufferSize ▸ hc.nonneg⟩
  rw [h.bufferSize, hp]
  exact hc.balance

theorem pass {g : Gen} {m : Bytes} (hc : Credit window acked c) (hm : (m.length : Int) ≤ c.bufferSize) :
    Credit window acked (c.pass g m) := by
  have hle := hc.acked_le
  have hb := hc.balance
  refine ⟨hc.mapped, ?_, ?_, ?_⟩
  · rw [passed_pass]; omega
  · rw [passed_pass]; simp only [FileConnection.pass]; omega
  · simp only [FileConnection.pass]; omega

theorem tryNext {done : Bool} (hc : Credit window acked c)
    (h : c.tryNext security clock = .ok (done, c')) : Credit window acked c' := by
  obtain ⟨g, msg, timeout, c₁, -, hget, hcase⟩ := tryNext_cases h
  have h0 : Credit window acked { c with idx := c.nextIdx } := ⟨hc.mapped, hc.acked_le, hc.balance, hc.nonneg⟩
  have h1 := h0.keeps (getMessage_keeps hget)
  rcases hcase with ⟨-, m, -, -, hfit, rfl⟩ | ⟨-, m, -, -, -, rfl⟩ | ⟨-, -, timer, rfl⟩
  · exact h1.pass hfit
  · exact h1.keeps (keepMessage_keeps c₁ m g)
  · exact h1.keeps ⟨rfl, rfl, rfl, rfl⟩

theorem bytesWritten {n : Nat} (hc : Credit window acked c) (hn : acked + n ≤ c.passed)
    (h : c.bytesWritten security n clock = .ok c') : Credit window (acked + n) c' := by
  have hne : c.generators ≠ [] := List.ne_nil_of_mem hc.mapped
  simp only [FileConnection.bytesWritten, beq_iff_eq, List.length_eq_zero_iff, if_neg hne] at h
  refine tryLoop_invariant (fun c done c' hc h => hc.tryNext h) ?_ h
  have hb := hc.balance
  have hz := hc.nonneg
  refine ⟨hc.mapped, hn, ?_, ?_⟩
  · show c.bufferSize + (n : Int) = window - ((c.passed : Int) - (acked + n : Nat))
    omega
  · show 0 ≤ c.bufferSize + (n : Int)
    omega

theorem pulse (hc : Credit window acked c) (h : c.pulse security clock = .ok c') : Credit window acked c' :=
  hc.bytesWritten hc.acked_le h

theorem mapFile (hc : Credit window acked c) (stream : FileStream) : Credit window acked (c.mapFile stream) :=
  ⟨List.mem_append_left _ hc.mapped, hc.acked_le, hc.balance, hc.nonneg⟩

end Credit

/-! ### Runs -/

def Event.frames : Event → List Bytes
  | .send data _ => data
  | _ => []

def Event.acked : Event → Nat
  | .bytesWritten c _ => c
  | _ => 0

/-- A connection with the frames given to `Send` and the bytes acknowledged so far. -/
structure History (δ : Type) where
  conn : FileConnection δ
  written : List Bytes
  acked : Nat

def History.start (window : Nat) (sec : δ) : History δ := ⟨.new window sec, [], 0⟩

def History.step (security : Security δ) (h : History δ) (e : Event) : LuaM (History δ) := do
  let conn ← h.conn.handle security e
  return ⟨conn, h.written ++ e.frames, h.acked + e.acked⟩

theorem History.step_eq_ok {h h' : History δ} {e : Event} (hs : h.step security e = .ok h') :
    h.conn.handle security e = .ok h'.conn ∧ h'.written = h.written ++ e.frames ∧
      h'.acked = h.acked + e.acked := by
  obtain ⟨conn, hc, hs⟩ := bind_eq_ok.mp hs
  cases hs
  exact ⟨hc, rfl, rfl⟩

/-- Only bytes in flight are acknowledged. -/
def AcksInFlight (h : History δ) (e : Event) : Prop := h.acked + e.acked ≤ h.conn.passed

instance (h : History δ) (e : Event) : Decidable (AcksInFlight h e) := Nat.decLe _ _

theorem send_eq_ok {data : List Bytes} (h : c.send security data clock = .ok c') :
    ∃ fbuf, data.foldlM (fun fbuf chunk => fbuf.writeMessage chunk) c.fbuf = .ok fbuf ∧
      pulse security { c with fbuf := fbuf.flush } clock = .ok c' :=
  bind_eq_ok.mp h

theorem startStreaming_eq_ok {session version service : Nat} {encryption : Bool} {filename : String}
    {content : Option Bytes} {bandwidth : Option Nat} {ts : Int}
    (h : c.startStreaming security session version service encryption filename content bandwidth ts clock =
      .ok c') :
    ∃ stream, FileStream.new filename content version session service encryption
        (bandwidth.getD (30 * 1024)) ts = .ok stream ∧
      pulse security (c.mapFile stream) clock = .ok c' :=
  bind_eq_ok.mp h

theorem stopStreaming_eq_ok {filename : String} (h : c.stopStreaming filename = .ok c') :
    ∃ n, c' = { c with
      generators := c.generators.erase (.stream n), mapped := c.mapped.erase filename } := by
  simp only [stopStreaming] at h
  cases hm : c.mapped filename with
  | none => rw [hm] at h; cases h
  | some n => rw [hm] at h; cases h; exact ⟨n, rfl⟩

theorem Credit.step {window : Nat} {h h' : History δ} {e : Event} (hc : Credit window h.acked h.conn)
    (hack : AcksInFlight h e) (hs : h.step security e = .ok h') : Credit window h'.acked h'.conn := by
  obtain ⟨hconn, -, hacked⟩ := History.step_eq_ok hs
  rw [hacked]
  cases e with
  | send data clock =>
    obtain ⟨fbuf, -, hp⟩ := send_eq_ok hconn
    refine Credit.pulse ?_ hp
    exact hc.keeps ⟨rfl, rfl, rfl, rfl⟩
  | startStreaming session version service encryption filename content bandwidth ts clock =>
    obtain ⟨stream, -, hp⟩ := startStreaming_eq_ok hconn
    exact (hc.mapFile stream).pulse hp
  | stopStreaming filename =>
    obtain ⟨n, hn⟩ := stopStreaming_eq_ok hconn
    rw [hn]
    refine ⟨?_, hc.acked_le, hc.balance, hc.nonneg⟩
    exact (List.mem_erase_of_ne (by simp)).mpr hc.mapped
  | timeout clock => exact hc.bytesWritten hc.acked_le hconn
  | bytesWritten n clock => exact hc.bytesWritten hack hconn

theorem Credit.start (window : Nat) (sec : δ) : Credit window 0 (FileConnection.new window sec) := by
  refine ⟨List.mem_singleton.mpr rfl, Nat.zero_le _, ?_, ?_⟩
  · simp [new, passed]
  · exact Int.natCast_nonneg window

theorem Credit.of_reaches {window : Nat} {sec : δ} {h : History δ}
    (hr : Run.Reaches (History.step security) AcksInFlight (.start window sec) h) :
    Credit window h.acked h.conn :=
  hr.invariant (I := fun h => Credit window h.acked h.conn) (Credit.start window sec)
    fun _ _ _ hc hg hs => hc.step hg hs

/-- In every reachable state the window is what is not in flight, and within its bounds. -/
theorem bufferSize_eq {window : Nat} {sec : δ} {h : History δ}
    (hr : Run.Reaches (History.step security) AcksInFlight (.start window sec) h) :
    h.conn.bufferSize = window - ((h.conn.passed : Int) - h.acked) ∧
      0 ≤ h.conn.bufferSize ∧ h.conn.bufferSize ≤ window := by
  have hc := Credit.of_reaches hr
  have hb := hc.balance
  have hle := hc.acked_le
  exact ⟨hb, hc.nonneg, by omega⟩

def transparent : Security Unit :=
  ⟨fun s data _ _ _ => (s, some data), fun s data _ _ => .ok (s, some data)⟩

/-- A chunk of a stream leaves the window too small for the frame that follows, which waits for an
acknowledgement. -/
def sampleEvents : List Event :=
  [.startStreaming 1 3 SERVICE_TYPE.VIDEO false "video" (some [9, 8, 7]) (some 4) 0 (fun _ => 0),
    .timeout (fun _ => 1000), .send [[1, 2, 3, 4, 5, 6, 7]] (fun _ => 1000), .bytesWritten 5 (fun _ => 1000)]

theorem bufferSize_eq_sample :
    ∃ h, Run.exec (History.step transparent) AcksInFlight (.start 20 ()) sampleEvents = some h ∧
      h.conn.bufferSize = (20 : Nat) - ((h.conn.passed : Int) - h.acked) ∧ 0 ≤ h.conn.bufferSize ∧
      h.conn.bufferSize ≤ (20 : Nat) := by
  obtain ⟨h, hh⟩ := Option.isSome_iff_exists.mp (show (Run.exec (History.step transparent) AcksInFlight
    (.start 20 ()) sampleEvents).isSome = true by decide +kernel)
  exact ⟨h, hh, bufferSize_eq (.of_exec .start hh)⟩

end FileConnection

end Atf
