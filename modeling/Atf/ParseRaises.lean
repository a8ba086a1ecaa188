import Atf.ParseChunks
import Atf.Received
import Atf.Lib.Run

/-!
# When `Parse` returns

Two accesses of the loop of `Parse` rest on what the peer sent before. A consecutive frame is appended
to the entry of its message, which only a first frame creates; and `parseBinaryHeader` reads twelve
bytes of a message that may be shorter. Both are ruled out by a ledger that knows of each open message
no more than how many bytes have been collected for it: `Orderly` walks the frames with it, and
`foldlM_ok_iff` says that the loop gets through exactly the orderly lists of frames. What the ledger
cannot see, that the two tables always have the same entries, is the invariant `Paired`; it also
survives a call that raises, which leaves the handler in the middle of its loop (`leave`).
-/

namespace Atf
open Lua

variable {δ J : Type} (env : ParseEnv δ J)

/-! ### The binary header -/

theorem number_byte_ok_iff {s : Bytes} {i : Nat} (hi : 1 ≤ i) :
    (∃ n, number (byte s i) = .ok n) ↔ i ≤ s.length := by
  unfold byte
  by_cases h : i ≤ s.length
  · rw [List.getElem?_eq_getElem (show i - 1 < s.length by omega)]
    simp [h]
  · rw [List.getElem?_eq_none (by omega)]
    simp [number, h]

theorem bytesToInt32_ok_iff {s : Bytes} {i : Nat} (h : 1 ≤ i) :
    (∃ n, bytesToInt32 s i = .ok n) ↔ i + 3 ≤ s.length := by
  constructor
  · rintro ⟨n, hn⟩
    obtain ⟨b0, -, hn⟩ := bind_eq_ok.mp hn
    obtain ⟨b1, -, hn⟩ := bind_eq_ok.mp hn
    obtain ⟨b2, -, hn⟩ := bind_eq_ok.mp hn
    obtain ⟨b3, h3, -⟩ := bind_eq_ok.mp hn
    exact (number_byte_ok_iff (by omega)).mp ⟨b3, h3⟩
  · intro hlen
    have hb : ∀ j ≤ 3, ∃ n, number (byte s (i + j)) = .ok n := fun j hj =>
      (number_byte_ok_iff (by omega)).mpr (by omega)
    obtain ⟨b0, h0⟩ := hb 0 (by omega)
    obtain ⟨b1, h1⟩ := hb 1 (by omega)
    obtain ⟨b2, h2⟩ := hb 2 (by omega)
    obtain ⟨b3, h3⟩ := hb 3 (by omega)
    exact ⟨_, bind_eq_ok.mpr ⟨b0, h0, bind_eq_ok.mpr ⟨b1, h1, bind_eq_ok.mpr ⟨b2, h2,
      bind_eq_ok.mpr ⟨b3, h3, rfl⟩⟩⟩⟩⟩

theorem parseBinaryHeader_ok_iff (decode : Bytes → Option J) (validateJson : Bool) (msg : Msg J) :
    (∃ m, parseBinaryHeader decode validateJson msg = .ok m) ↔
      BINARY_HEADER_SIZE ≤ msg.binaryData.length := by
  constructor
  · rintro ⟨m, hm⟩
    obtain ⟨byte1, -, hm⟩ := bind_eq_ok.mp hm
    obtain ⟨word1, -, hm⟩ := bind_eq_ok.mp hm
    obtain ⟨jsonSize, hj, -⟩ := bind_eq_ok.mp hm
    exact (bytesToInt32_ok_iff (by decide)).mp ⟨jsonSize, hj⟩
  · intro hlen
    unfold BINARY_HEADER_SIZE at hlen
    obtain ⟨b1, h1⟩ := (number_byte_ok_iff (s := msg.binaryData) (i := 1) (by decide)).mpr (by omega)
    obtain ⟨w1, hw1⟩ := (bytesToInt32_ok_iff (s := msg.binaryData) (i := 1) (by decide)).mpr (by omega)
    obtain ⟨w5, hw5⟩ := (bytesToInt32_ok_iff (s := msg.binaryData) (i := 5) (by decide)).mpr (by omega)
    obtain ⟨w9, hw9⟩ := (bytesToInt32_ok_iff (s := msg.binaryData) (i := 9) (by decide)).mpr (by omega)
    simp only [parseBinaryHeader, h1, hw1, hw5, hw9, bind, Except.bind, pure, Except.pure]
    split <;> exact ⟨_, rfl⟩

/-- The header of the message, where its service has one, is complete. -/
def HeaderFits (serviceType length : Nat) : Prop :=
  isBinaryDataHasHeader serviceType = true → BINARY_HEADER_SIZE ≤ length

instance (serviceType length : Nat) : Decidable (HeaderFits serviceType length) :=
  inferInstanceAs (Decidable (_ → _))

theorem parseData_ok_iff (msg : Msg J) :
    (∃ m, env.parseData msg = .ok m) ↔ HeaderFits msg.serviceType msg.binaryData.length := by
  unfold ParseEnv.parseData HeaderFits
  split
  · rename_i hs
    simp only [hs, true_implies]
    exact parseBinaryHeader_ok_iff ..
  · rename_i hs
    simp [hs]

/-! ### The ledger -/

/-- How many bytes have been collected for each open message. -/
abbrev Ledger := Table String Nat

def Ledger.ofFrames (frames : Table String Bytes) : Ledger := fun k => (frames k).map List.length

theorem Ledger.ofFrames_set (frames : Table String Bytes) (k : String) (b : Bytes) :
    Ledger.ofFrames (frames.set k b) = (Ledger.ofFrames frames).set k b.length := by
  funext k'
  simp only [ofFrames, Table.set_apply]
  split <;> rfl

theorem Ledger.ofFrames_erase (frames : Table String Bytes) (k : String) :
    Ledger.ofFrames (frames.erase k) = (Ledger.ofFrames frames).erase k := by
  funext k'
  simp only [ofFrames, Table.erase_apply]
  split <;> rfl

/-- The frame finds what its type relies on. -/
structure Ledger.Expects (l : Ledger) (msg : Msg J) : Prop where
  single : msg.frameType = FRAME_TYPE.SINGLE_FRAME → HeaderFits msg.serviceType msg.binaryData.length
  consecutive : msg.frameType = FRAME_TYPE.CONSECUTIVE_FRAME → ∃ n, l msg.key = some n ∧
    (msg.frameInfo = LAST_FRAME → HeaderFits msg.serviceType (n + msg.binaryData.length))

def Ledger.next (l : Ledger) (msg : Msg J) : Ledger :=
  if msg.frameType = FRAME_TYPE.FIRST_FRAME then l.set msg.key 0
  else if msg.frameType = FRAME_TYPE.CONSECUTIVE_FRAME then
    if msg.frameInfo = LAST_FRAME then l.erase msg.key
    else l.set msg.key ((l msg.key).getD 0 + msg.binaryData.length)
  else l

/-- Every frame, once it is decrypted, is one that the ledger expects or is returned at once. -/
def ParseEnv.Orderly (env : ParseEnv δ J) : δ → Ledger → List (Header × Bytes) → Prop
  | _, _, [] => True
  | sec, l, frame :: frames =>
    let (sec, msg) := env.receive sec frame
    if msg.Taken then l.Expects msg ∧ env.Orderly sec (l.next msg) frames
    else env.Orderly sec l frames

/-! ### One frame -/

/-- The two tables have the same entries. -/
def Paired (frames : Table String Bytes) (totalSize : Table String Nat) : Prop :=
  ∀ k, (frames k).isSome = (totalSize k).isSome

namespace Paired
variable {frames : Table String Bytes} {totalSize : Table String Nat}

theorem set (h : Paired frames totalSize) (k : String) (b : Bytes) (n : Nat) :
    Paired (frames.set k b) (totalSize.set k n) := by
  intro k'
  simp only [Table.set_apply]
  split
  · rfl
  · exact h k'

theorem erase (h : Paired frames totalSize) (k : String) : Paired (frames.erase k) (totalSize.erase k) := by
  intro k'
  simp only [Table.erase_apply]
  split
  · rfl
  · exact h k'

theorem entry (h : Paired frames totalSize) {k : String} {acc : Bytes} (hf : frames k = some acc) :
    ∃ n, totalSize k = some n := by
  have := h k
  rw [hf] at this
  exact Option.isSome_iff_exists.mp this.symm

end Paired

theorem frameType_cases (t : Nat) :
    t = FRAME_TYPE.CONTROL_FRAME ∨ t = FRAME_TYPE.FIRST_FRAME ∨ t = FRAME_TYPE.SINGLE_FRAME ∨
      t = FRAME_TYPE.CONSECUTIVE_FRAME ∨ FRAME_TYPE.CONSECUTIVE_FRAME < t := by
  simp only [FRAME_TYPE.CONTROL_FRAME, FRAME_TYPE.FIRST_FRAME, FRAME_TYPE.SINGLE_FRAME,
    FRAME_TYPE.CONSECUTIVE_FRAME]
  omega

/-- What a frame that is taken leaves of the tables, when it does not raise. -/
structure Advances (st st' : ParseState δ J) (msg : Msg J) : Prop where
  sec : st'.sec = st.sec
  ledger : Ledger.ofFrames st'.frames = (Ledger.ofFrames st.frames).next msg
  paired : Paired st'.frames st'.totalSize

section Taken
variable {st : ParseState δ J} {msg : Msg J} (hp : Paired st.frames st.totalSize) (h : msg.Taken)
include hp h

theorem assemble_consecutive_ok_iff (ht : msg.frameType = FRAME_TYPE.CONSECUTIVE_FRAME) :
    (∃ st', env.assemble st msg = .ok st') ↔ (Ledger.ofFrames st.frames).Expects msg := by
  have hl : Ledger.ofFrames st.frames msg.key = (st.frames msg.key).map List.length := rfl
  cases hf : st.frames msg.key with
  | none =>
    rw [assemble_unopened env st h ht hf]
    constructor
    · rintro ⟨st', hst'⟩
      cases hst'
    · intro he
      obtain ⟨n, hn, -⟩ := he.consecutive ht
      rw [hl, hf] at hn
      cases hn
  | some acc =>
    obtain ⟨n, hn⟩ := hp.entry hf
    rw [hf] at hl
    by_cases hi : msg.frameInfo = LAST_FRAME
    · rw [assemble_last env st h ht hf hn hi]
      have hd := parseData_ok_iff env
        { msg with binaryData := acc ++ msg.binaryData, size := n + msg.size }
      simp only [List.length_append] at hd
      constructor
      · rintro ⟨st', hst'⟩
        obtain ⟨m, hm, -⟩ := map_eq_ok.mp hst'
        exact ⟨fun hs => absurd (ht.symm.trans hs) (by decide),
          fun _ => ⟨acc.length, hl, fun _ => hd.mp ⟨m, hm⟩⟩⟩
      · intro he
        obtain ⟨c, hc, hfits⟩ := he.consecutive ht
        rw [hl] at hc
        cases hc
        obtain ⟨m, hm⟩ := hd.mpr (hfits hi)
        exact ⟨_, map_eq_ok.mpr ⟨m, hm, rfl⟩⟩
    · rw [assemble_more env st h ht hf hn hi]
      constructor
      · intro _
        exact ⟨fun hs => absurd (ht.symm.trans hs) (by decide),
          fun _ => ⟨acc.length, hl, fun hi' => absurd hi' hi⟩⟩
      · intro _
        exact ⟨_, rfl⟩

/-- A frame that is taken raises unless the ledger expects it. -/
theorem assemble_ok_iff :
    (∃ st', env.assemble st msg = .ok st') ↔ (Ledger.ofFrames st.frames).Expects msg := by
  rcases frameType_cases msg.frameType with ht | ht | ht | ht | ht
  · rw [assemble_control env st h ht]
    exact ⟨fun _ => ⟨fun hs => absurd (ht.symm.trans hs) (by decide),
      fun hc => absurd (ht.symm.trans hc) (by decide)⟩, fun _ => ⟨_, rfl⟩⟩
  · rw [assemble_first env st h ht]
    exact ⟨fun _ => ⟨fun hs => absurd (ht.symm.trans hs) (by decide),
      fun hc => absurd (ht.symm.trans hc) (by decide)⟩, fun _ => ⟨_, rfl⟩⟩
  · rw [assemble_single env st h ht]
    constructor
    · rintro ⟨st', hst'⟩
      obtain ⟨m, hm, -⟩ := map_eq_ok.mp hst'
      exact ⟨fun _ => (parseData_ok_iff env msg).mp ⟨m, hm⟩,
        fun hc => absurd (ht.symm.trans hc) (by decide)⟩
    · intro he
      obtain ⟨m, hm⟩ := (parseData_ok_iff env msg).mpr (he.single ht)
      exact ⟨_, map_eq_ok.mpr ⟨m, hm, rfl⟩⟩
  · exact assemble_consecutive_ok_iff env hp h ht
  · rw [assemble_unknown env st h ht]
    exact ⟨fun _ => ⟨fun hs => absurd (hs ▸ ht) (by decide), fun hc => absurd (hc ▸ ht) (by decide)⟩,
      fun _ => ⟨_, rfl⟩⟩

theorem assemble_advances {st' : ParseState δ J} (hok : env.assemble st msg = .ok st') :
    Advances st st' msg := by
  rcases frameType_cases msg.frameType with ht | ht | ht | ht | ht
  · rw [assemble_control env st h ht] at hok
    cases hok
    exact ⟨rfl, by simp [Ledger.next, ht, FRAME_TYPE.CONTROL_FRAME, FRAME_TYPE.FIRST_FRAME,
      FRAME_TYPE.CONSECUTIVE_FRAME], hp⟩
  · rw [assemble_first env st h ht] at hok
    cases hok
    refine ⟨rfl, ?_, hp.set _ _ _⟩
    rw [Ledger.ofFrames_set, Ledger.next, if_pos ht]
    rfl
  · rw [assemble_single env st h ht] at hok
    obtain ⟨m, -, rfl⟩ := map_eq_ok.mp hok
    exact ⟨rfl, by simp [Ledger.next, ht, FRAME_TYPE.SINGLE_FRAME, FRAME_TYPE.FIRST_FRAME,
      FRAME_TYPE.CONSECUTIVE_FRAME], hp⟩
  · have hne : msg.frameType ≠ FRAME_TYPE.FIRST_FRAME := by rw [ht]; decide
    cases hf : st.frames msg.key with
    | none =>
      rw [assemble_unopened env st h ht hf] at hok
      cases hok
    | some acc =>
      obtain ⟨n, hn⟩ := hp.entry hf
      by_cases hi : msg.frameInfo = LAST_FRAME
      · rw [assemble_last env st h ht hf hn hi] at hok
        obtain ⟨m, -, rfl⟩ := map_eq_ok.mp hok
        refine ⟨rfl, ?_, hp.erase _⟩
        rw [Ledger.ofFrames_erase, Ledger.next, if_neg hne, if_pos ht, if_pos hi]
      · rw [assemble_more env st h ht hf hn hi] at hok
        cases hok
        refine ⟨rfl, ?_, hp.set _ _ _⟩
        have hl : Ledger.ofFrames st.frames msg.key = some acc.length := by simp [Ledger.ofFrames, hf]
        rw [Ledger.ofFrames_set, Ledger.next, if_neg hne, if_pos ht, if_neg hi, hl, List.length_append]
        rfl
  · rw [assemble_unknown env st h ht] at hok
    cases hok
    have h1 : msg.frameType ≠ FRAME_TYPE.FIRST_FRAME := fun hc => absurd (hc ▸ ht) (by decide)
    have h2 : msg.frameType ≠ FRAME_TYPE.CONSECUTIVE_FRAME := fun hc => absurd (hc ▸ ht) (by decide)
    exact ⟨rfl, by rw [Ledger.next, if_neg h1, if_neg h2], hp⟩

end Taken

/-! ### The loop -/

/-- The loop gets through exactly the orderly lists of frames. -/
theorem foldlM_ok_iff (frames : List (Header × Bytes)) {st : ParseState δ J}
    (hp : Paired st.frames st.totalSize) :
    (∃ st', frames.foldlM env.handleFrame st = .ok st') ↔
      env.Orderly st.sec (Ledger.ofFrames st.frames) frames := by
  induction frames generalizing st with
  | nil => exact ⟨fun _ => trivial, fun _ => ⟨st, rfl⟩⟩
  | cons f frames ih =>
    simp only [List.foldlM_cons, bind_eq_ok, handleFrame_eq, ParseEnv.Orderly]
    by_cases h : (env.receive st.sec f).2.Taken
    · have hcalled : Paired (env.called st f).frames (env.called st f).totalSize := hp
      have hok : (∃ st', env.assemble (env.called st f) (env.receive st.sec f).2 = .ok st') ↔
          (Ledger.ofFrames st.frames).Expects (env.receive st.sec f).2 := assemble_ok_iff env hcalled h
      rw [if_pos h, ← hok]
      constructor
      · rintro ⟨st'', st', hst', hrest⟩
        have ha := assemble_advances env hcalled h hst'
        have hrest := (ih ha.paired).mp ⟨st'', hrest⟩
        rw [ha.sec, ha.ledger] at hrest
        exact ⟨⟨st', hst'⟩, hrest⟩
      · rintro ⟨⟨st', hst'⟩, hrest⟩
        have ha := assemble_advances env hcalled h hst'
        rw [show (env.receive st.sec f).1 = st'.sec from ha.sec.symm,
          show (Ledger.ofFrames st.frames).next _ = Ledger.ofFrames st'.frames from ha.ledger.symm] at hrest
        obtain ⟨st'', hst''⟩ := (ih ha.paired).mpr hrest
        exact ⟨st'', st', hst', hst''⟩
    · rw [if_neg h, assemble_alone env _ h]
      -- such a frame changes neither table, so the ledger stays as it is
      simp only [Except.ok.injEq, exists_eq_left']
      exact ih hp

theorem parse_ok_iff {self : ProtocolHandler} (hp : Paired self.frames self.totalSize) (sec : δ)
    (binary : Bytes) :
    (∃ p, env.parse self sec binary = .ok p) ↔
      env.Orderly sec (Ledger.ofFrames self.frames) (wire.split (self.buffer ++ binary)).1 := by
  let st : ParseState δ J := ⟨sec, self.frames, self.totalSize, [], []⟩
  have hst : Paired st.frames st.totalSize := hp
  rw [← foldlM_ok_iff env (wire.split (self.buffer ++ binary)).1 hst, parse_eq]
  constructor
  · rintro ⟨p, h⟩
    obtain ⟨st, hst, -⟩ := map_eq_ok.mp h
    exact ⟨st, hst⟩
  · rintro ⟨st, hst⟩
    exact ⟨_, map_eq_ok.mpr ⟨st, hst, rfl⟩⟩

/-! ### The handler a call leaves behind -/

/-- The tables after a frame that raised: the consecutive frame has already written its own entries. -/
def raisedTables (st : ParseState δ J) (msg : Msg J) : Table String Bytes × Table String Nat :=
  if msg.frameType = FRAME_TYPE.CONSECUTIVE_FRAME then
    match st.frames msg.key, st.totalSize msg.key with
    | some _, some _ => (st.frames.erase msg.key, st.totalSize.erase msg.key)
    | some collected, none => (st.frames.set msg.key (collected ++ msg.binaryData), st.totalSize)
    | none, _ => (st.frames, st.totalSize)
  else (st.frames, st.totalSize)

/-- The handler once the loop is over, because no complete frame is left or because one raised. -/
def ParseEnv.leaveLoop (env : ParseEnv δ J) : (fuel : Nat) → Bytes → ParseState δ J → ProtocolHandler
  | 0, buffer, st => ⟨buffer, st.frames, st.totalSize⟩
  | fuel + 1, buffer, st =>
    match nextFrame buffer with
    | none => ⟨buffer, st.frames, st.totalSize⟩
    | some (frame, rest) =>
      match env.handleFrame st frame with
      | .ok st => env.leaveLoop fuel rest st
      | .error _ =>
        let tables := raisedTables st (env.receive st.sec frame).2
        ⟨rest, tables.1, tables.2⟩

def ParseEnv.leave (env : ParseEnv δ J) (self : ProtocolHandler) (sec : δ) (binary : Bytes) :
    ProtocolHandler :=
  let buffer := self.buffer ++ binary
  env.leaveLoop buffer.length buffer ⟨sec, self.frames, self.totalSize, [], []⟩

theorem leaveLoop_eq {fuel : Nat} {buffer : Bytes} (hf : buffer.length ≤ fuel) {st st' : ParseState δ J}
    (h : (wire.split buffer).1.foldlM env.handleFrame st = .ok st') :
    env.leaveLoop fuel buffer st = ⟨(wire.split buffer).2, st'.frames, st'.totalSize⟩ := by
  induction fuel generalizing buffer st with
  | zero =>
    have hb : buffer = [] := List.length_eq_zero_iff.mp (by omega)
    subst hb
    cases h
    rfl
  | succ fuel ih =>
    unfold ParseEnv.leaveLoop
    cases hn : nextFrame buffer with
    | none =>
      rw [wire.split_of_next_none hn] at h ⊢
      cases h
      rfl
    | some fr =>
      obtain ⟨f, rest⟩ := fr
      rw [wire.split_of_next_some hn] at h ⊢
      obtain ⟨st₁, h₁, h⟩ := bind_eq_ok.mp h
      have hlt := wire.next_length hn
      simp only [h₁]
      exact ih (by omega) h

/-- A call that returns leaves the handler it returns with. -/
theorem leave_eq {self : ProtocolHandler} {sec : δ} {binary : Bytes} {p : Parsed δ J}
    (h : env.parse self sec binary = .ok p) : env.leave self sec binary = p.handler := by
  rw [parse_eq] at h
  obtain ⟨st, hst, rfl⟩ := map_eq_ok.mp h
  exact leaveLoop_eq env (Nat.le_refl _) hst

theorem Paired.raised {st : ParseState δ J} (hp : Paired st.frames st.totalSize) (msg : Msg J) :
    Paired (raisedTables st msg).1 (raisedTables st msg).2 := by
  unfold raisedTables
  split
  · split
    · exact hp.erase _
    · rename_i hf hn
      obtain ⟨n, hn'⟩ := hp.entry hf
      rw [hn] at hn'
      cases hn'
    · exact hp
  · exact hp

theorem Paired.handleFrame {st st' : ParseState δ J} {f : Header × Bytes}
    (hp : Paired st.frames st.totalSize) (h : env.handleFrame st f = .ok st') :
    Paired st'.frames st'.totalSize := by
  rw [handleFrame_eq] at h
  by_cases ht : (env.receive st.sec f).2.Taken
  · have hcalled : Paired (env.called st f).frames (env.called st f).totalSize := hp
    exact (assemble_advances env hcalled ht h).paired
  · rw [assemble_alone env _ ht] at h
    cases h
    exact hp

theorem Paired.leaveLoop (fuel : Nat) (buffer : Bytes) {st : ParseState δ J}
    (hp : Paired st.frames st.totalSize) :
    Paired (env.leaveLoop fuel buffer st).frames (env.leaveLoop fuel buffer st).totalSize := by
  induction fuel generalizing buffer st with
  | zero => exact hp
  | succ fuel ih =>
    unfold ParseEnv.leaveLoop
    split
    · exact hp
    · split
      · rename_i st' h
        exact ih _ (Paired.handleFrame env hp h)
      · exact hp.raised _

/-! ### Every reachable handler -/

/-- A call of `Parse` as a step of the handler. Other code may use the security layer between two
calls, so each call finds it in a state of its own. -/
def ParseEnv.callParse (env : ParseEnv δ J) (self : ProtocolHandler) (call : δ × Bytes) :
    Except Empty ProtocolHandler :=
  .ok (env.leave self call.1 call.2)

def ParseEnv.Reachable (env : ParseEnv δ J) (self : ProtocolHandler) : Prop :=
  Run.Reaches env.callParse (fun _ _ => True) .new self

theorem Paired.of_reachable {self : ProtocolHandler} (h : env.Reachable self) :
    Paired self.frames self.totalSize := by
  refine Run.Reaches.invariant (I := fun s => Paired s.frames s.totalSize) h (fun _ => rfl) ?_
  rintro s ⟨sec, binary⟩ s' hp - hs
  cases hs
  exact Paired.leaveLoop env _ _ hp

/-- A call that returns leads to the handler it returns with. -/
theorem ParseEnv.Reachable.parse {self : ProtocolHandler} (h : env.Reachable self) {sec : δ} {binary : Bytes}
    {p : Parsed δ J} (hp : env.parse self sec binary = .ok p) : env.Reachable p.handler := by
  have hstep : env.callParse self (sec, binary) = .ok p.handler := congrArg Except.ok (leave_eq env hp)
  exact h.step trivial hstep

/-- The call returns, with every message that was complete at any point of the chunk. -/
def ParseEnv.Delivers (env : ParseEnv δ J) (self : ProtocolHandler) (sec : δ) (binary : Bytes) : Prop :=
  ∃ p, env.parse self sec binary = .ok p ∧
    ∀ b c, binary = b ++ c → ∃ q, env.parse self sec b = .ok q ∧ q.res <+: p.res

theorem delivers_of_parse {self : ProtocolHandler} {sec : δ} {binary : Bytes} {p : Parsed δ J}
    (h : env.parse self sec binary = .ok p) : env.Delivers self sec binary := by
  refine ⟨p, h, ?_⟩
  rintro b c rfl
  rw [parse_append] at h
  obtain ⟨q, hq, h⟩ := bind_eq_ok.mp h
  obtain ⟨r, -, h⟩ := bind_eq_ok.mp h
  cases h
  exact ⟨q, hq, List.prefix_append _ _⟩

/-- In every reachable state a call returns, with every message that is complete in its chunk, exactly if each frame is
one that the collected data expects. -/
theorem delivers_iff {self : ProtocolHandler} (h : env.Reachable self) (sec : δ) (binary : Bytes) :
    env.Delivers self sec binary ↔
      env.Orderly sec (Ledger.ofFrames self.frames) (wire.split (self.buffer ++ binary)).1 := by
  rw [← parse_ok_iff env (Paired.of_reachable env h)]
  constructor
  · rintro ⟨p, hp, -⟩
    exact ⟨p, hp⟩
  · rintro ⟨p, hp⟩
    exact delivers_of_parse env hp

/-! ### A chunk that loses a message -/

namespace Unsecured

/-- No session is registered with the security manager. -/
def environment : ParseEnv Unit Unit where
  security := ⟨fun s _ _ _ _ => (s, none), fun _ _ _ _ => .error "Session is not registered"⟩
  decode := fun _ => none
  validateJson := false

def frame (frameType serviceType : Nat) (data : Bytes) : Header × Bytes :=
  (⟨3, frameType, false, serviceType, 0, 1, data.length, 7⟩, data)

def opened : Bytes := encodeFrame (frame FRAME_TYPE.FIRST_FRAME SERVICE_TYPE.PCM [0, 0, 0, 1, 0, 0, 0, 1])

def completed : Bytes := encodeFrame (frame FRAME_TYPE.SINGLE_FRAME SERVICE_TYPE.PCM [1, 2])

def unopened : Bytes := encodeFrame (frame FRAME_TYPE.CONSECUTIVE_FRAME SERVICE_TYPE.PCM [3])

def headless : Bytes := encodeFrame (frame FRAME_TYPE.SINGLE_FRAME SERVICE_TYPE.RPC [3])

end Unsecured

/-- A complete message is lost to a consecutive frame without a first frame, and to an RPC frame
shorter than a binary header. -/
theorem delivers_fails :
    Unsecured.environment.Reachable .new ∧
      (Unsecured.environment.parse .new () Unsecured.completed).map (·.res.length) = .ok 1 ∧
      ¬ Unsecured.environment.Delivers .new () (Unsecured.completed ++ Unsecured.unopened) ∧
      ¬ Unsecured.environment.Delivers .new () (Unsecured.completed ++ Unsecured.headless) := by
  have h : ∀ b : Bytes, (Unsecured.environment.parse .new () b).isOk = false →
      ¬ Unsecured.environment.Delivers .new () b := by
    rintro b hb ⟨p, hp, -⟩
    rw [hp] at hb
    cases hb
  exact ⟨.start, by decide +kernel, h _ (by decide +kernel), h _ (by decide +kernel)⟩

/-- One call opens a message; the next one gets a single frame, and the consecutive frame that completes the message. -/
theorem delivers_completed : ∃ p, Unsecured.environment.parse .new () Unsecured.opened = .ok p ∧
    Unsecured.environment.Delivers p.handler () (Unsecured.completed ++ Unsecured.unopened) := by
  let single := Unsecured.frame FRAME_TYPE.SINGLE_FRAME SERVICE_TYPE.PCM [1, 2]
  let last := Unsecured.frame FRAME_TYPE.CONSECUTIVE_FRAME SERVICE_TYPE.PCM [3]
  have hopen : (Unsecured.environment.parse .new () Unsecured.opened).map (fun p =>
      (p.handler.buffer, p.handler.frames (Unsecured.environment.receive () last).2.key)) = .ok ([], some []) := by
    decide +kernel
  obtain ⟨p, hp, hhandler⟩ := map_eq_ok.mp hopen
  obtain ⟨hbuffer, hframes⟩ := Prod.mk.inj hhandler
  have hwf : ∀ f ∈ [single, last], WellFormed f := by
    intro f hf
    rcases List.mem_cons.mp hf with rfl | hf
    · constructor <;> decide
    · rw [List.mem_singleton.mp hf]
      constructor <;> decide
  have hsplit : wire.split (Unsecured.completed ++ Unsecured.unopened) = ([single, last], []) := split_encodeFrames hwf
  have hledger : Ledger.ofFrames p.handler.frames (Unsecured.environment.receive () last).2.key = some 0 := by
    rw [Ledger.ofFrames, hframes]
    rfl
  have horderly : Unsecured.environment.Orderly () (Ledger.ofFrames p.handler.frames) [single, last] := by
    refine ⟨⟨fun _ hs => absurd hs (by decide), fun hc => absurd hc (by decide)⟩, ?_⟩
    refine ⟨⟨fun hs => absurd hs (by decide), fun _ => ⟨0, hledger, fun _ hs => absurd hs (by decide)⟩⟩, trivial⟩
  have hreach : Unsecured.environment.Reachable p.handler := ParseEnv.Reachable.parse Unsecured.environment .start hp
  have h := delivers_iff Unsecured.environment hreach () (Unsecured.completed ++ Unsecured.unopened)
  rw [hbuffer, List.nil_append, hsplit] at h
  exact ⟨p, hp, h.mpr horderly⟩

end Atf
