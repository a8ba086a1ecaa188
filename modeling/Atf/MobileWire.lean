import Atf.RoundTrip
import Atf.ParseChunks
import Atf.DispatchFifo
import Atf.StreamPace

/-!
# Messages and streams on one wire (`mobile_connection.lua`)

The frames of the messages given to `MobileConnection:Send` go through the buffer file, the chunks of
streamed files come between them, and the other side reads the bytes in whatever pieces they arrive. The
frames of a message stay in order and a chunk is one single frame, which leaves the reassembly tables
alone (`foldlM_weave`), so the other side gets the messages as if nothing came between their frames, and
of each file a prefix.
-/

namespace Atf
open Lua Interleave

variable {δ J : Type}

/-! ### `MobileConnection:Send` -/

namespace MobileConnection

/-- The frames of the messages, one message after the other. -/
def composeAll (security : Security δ) : δ → List OutMsg → LuaM (δ × List Bytes)
  | sec, [] => return (sec, [])
  | sec, msg :: data => do
    let (sec, msgs, _) ← compose security sec msg
    let (sec, messages) ← composeAll security sec data
    return (sec, msgs ++ messages)

def send (security : Security δ) (self : FileConnection δ) (data : List OutMsg) (clock : Nat → Int) :
    LuaM (FileConnection δ) := do
  let (sec, messages) ← composeAll security self.sec data
  FileConnection.send security { self with sec } messages clock

/-- A call of `Send` with messages, or an event of the connection below. -/
inductive Call
  | send (data : List RpcMessage) (clock : Nat → Int)
  | connection (e : FileConnection.Event)

/-- The connection and the messages sent so far. -/
structure Sending (δ : Type) where
  conn : FileConnection δ
  messages : List RpcMessage

def Sending.start (window : Nat) (sec : δ) : Sending δ := ⟨.new window sec, []⟩

def Sending.step (security : Security δ) (s : Sending δ) : Call → LuaM (Sending δ)
  | .send data clock => do
    let conn ← MobileConnection.send security s.conn (data.map RpcMessage.toOutMsg) clock
    return ⟨conn, s.messages ++ data⟩
  | .connection e => do
    let conn ← s.conn.handle security e
    return ⟨conn, s.messages⟩

/-- Files are streamed unencrypted on a streaming service, and messages only go through `Send`. -/
def Plain (_ : Sending δ) : Call → Prop
  | .send _ _ => True
  | .connection (.send _ _) => False
  | .connection (.startStreaming session _ service encryption _ _ _ _ _) =>
    encryption = false ∧ (service = SERVICE_TYPE.PCM ∨ service = SERVICE_TYPE.VIDEO) ∧ session < 256
  | .connection _ => True

instance (s : Sending δ) (c : Call) : Decidable (Plain s c) := by
  unfold Plain
  split <;> infer_instance

end MobileConnection

/-! ### The frames of messages -/

theorem maxPayloadSize_room {version max : Nat} (h : maxPayloadSize version = .ok max) :
    8 ≤ max ∧ PROTOCOL_HEADER_SIZE + max < 2 ^ 32 := by
  unfold maxPayloadSize getProtocolFrameSize FRAME_SIZE at h
  split at h
  · rename_i size hs
    split at hs <;> cases hs <;> cases h <;> decide
  · cases h

/-- `msg` is what the other side reads of `m`. -/
structure Received (decode : Bytes → Option J) (m : RpcMessage) (msg : Msg J) : Prop where
  version : msg.version = m.version
  serviceType : msg.serviceType = m.serviceType
  sessionId : msg.sessionId = m.sessionId
  messageId : msg.messageId = m.messageId
  rpcType : msg.rpcType = some m.rpcType
  rpcFunctionId : msg.rpcFunctionId = some m.rpcFunctionId
  rpcCorrelationId : msg.rpcCorrelationId = some m.rpcCorrelationId
  payload : msg.payload = if m.payload = [] then none else decode m.payload
  binaryData : msg.binaryData = m.binaryData.getD []

/-- From empty tables the frames `fs` are read as the messages `ms`, and the tables are empty again. -/
def Carry (ms : List RpcMessage) (fs : List (Header × Bytes)) : Prop :=
  ∀ {δ J : Type} (env : ParseEnv δ J), env.validateJson = false → ∀ sec : δ, ∃ msgs calls,
    List.Forall₂ (Received env.decode) ms msgs ∧
      fs.foldlM env.handleFrame ⟨sec, Table.empty, Table.empty, [], []⟩ =
        .ok ⟨sec, Table.empty, Table.empty, msgs, calls⟩

namespace Carry
variable {ms ms' : List RpcMessage} {fs fs' : List (Header × Bytes)}

theorem nil : Carry [] [] := fun _ _ _ => ⟨[], [], .nil, rfl⟩

theorem append (h : Carry ms fs) (h' : Carry ms' fs') : Carry (ms ++ ms') (fs ++ fs') := by
  intro δ J env hv sec
  obtain ⟨msgs, calls, hall, hfold⟩ := h env hv sec
  obtain ⟨msgs', calls', hall', hfold'⟩ := h' env hv sec
  have hpre : (⟨sec, Table.empty, Table.empty, msgs, calls⟩ : ParseState δ J) =
      (⟨sec, Table.empty, Table.empty, [], []⟩ : ParseState δ J).prepend msgs calls := by
    simp [ParseState.prepend]
  refine ⟨msgs ++ msgs', calls ++ calls', List.rel_append hall hall', ?_⟩
  rw [List.foldlM_append, hfold]
  show fs'.foldlM env.handleFrame ⟨sec, Table.empty, Table.empty, msgs, calls⟩ = _
  rw [hpre, foldlM_handleFrame_append, hfold']
  rfl

end Carry

namespace RpcMessage
variable (m : RpcMessage) (security : Security δ) (sec : δ)

theorem carry_single {max : Nat} (hmax : maxPayloadSize m.version = .ok max) (hlt : max < 2 ^ 32)
    (hl : m.data.length ≤ max) :
    (∀ f ∈ [m.packed.frame m.data], WellFormed f) ∧ Carry [m] [m.packed.frame m.data] := by
  refine ⟨?_, ?_⟩
  · simp only [List.mem_singleton, forall_eq]
    exact m.fits.wellFormed (version_of_maxPayloadSize hmax).1 (by omega)
  · intro δ J env hv sec
    have hne : m.data ≠ [] := List.ne_nil_of_length_pos (by rw [m.length_data, BINARY_HEADER_SIZE]; omega)
    have hmsg := m.parseData_eq hv (plainMsg (m.packed.frame m.data)) rfl rfl (Nat.le_refl _)
    have hframe := handleFrame_single env (f := m.packed.frame m.data)
      ⟨sec, Table.empty, Table.empty, [], []⟩ rfl hne rfl
    rw [hmsg] at hframe
    refine ⟨_, _, ?_, by rw [List.foldlM_cons, hframe]; rfl⟩
    exact .cons ⟨rfl, rfl, rfl, Bit32.norm_of_lt m.messageId_word, rfl, rfl, rfl, rfl, rfl⟩ .nil

theorem carry_fragmented {frags : Fragmented} (hdata : dataOf (frags.middle ++ [frags.last]) = m.data)
    (hsize : sizeOfFrames (frags.middle ++ [frags.last]) = m.data.length)
    (h1 : frags.last.1.version = m.version) (h2 : frags.last.1.serviceType = m.serviceType)
    (h3 : frags.last.1.sessionId = m.sessionId) (h4 : frags.last.1.messageId = m.messageId) :
    Carry [m] frags.frames := by
  intro δ J env hv sec
  have hmsg := m.parseData_eq hv frags.assembled h2 hdata
    (by show _ ≤ frags.first.1.size + sizeOfFrames (frags.middle ++ [frags.last]); omega)
  have hfold := foldlM_fragmented env frags ⟨sec, Table.empty, Table.empty, [], []⟩
  rw [hmsg] at hfold
  simp only [Except.map, Table.erase_empty] at hfold
  exact ⟨_, _, .cons ⟨h1, h2, h3, h4, rfl, rfl, rfl, rfl, rfl⟩ .nil, hfold⟩

theorem length_composed {max : Nat} (hmax : maxPayloadSize m.version = .ok max) {sec' : δ} {frames : List Bytes}
    {out : OutMsg} (h : compose security sec m.toOutMsg = .ok (sec', frames, out)) :
    ∀ f ∈ frames, f.length ≤ PROTOCOL_HEADER_SIZE + max := by
  have hdata : outgoingData m.toOutMsg = .ok (some m.data) := by
    rw [outgoingData, if_pos m.hasToBuildBinaryHeader, rpcPayload_eq m.rpcType_range m.rpcFunctionId_range
      m.rpcCorrelationId_range.2 rfl rfl rfl]
    rfl
  rw [compose_eq_composeData hdata hmax, OutMsg.outgoing, if_pos m.hasToBuildBinaryHeader] at h
  refine (composeData_length_iff h hmax).mpr fun data _ c hc => ?_
  simp [encryptedParts, toOutMsg, ciphertexts] at hc

/-- A message is composed to frames that carry it. -/
theorem compose_carry : ∃ fs out, compose security sec m.toOutMsg = .ok (sec, fs.map encodeFrame, out) ∧
    (∀ f ∈ fs, WellFormed f ∧ (encodeFrame f).length < 2 ^ 32) ∧ Carry [m] fs := by
  obtain ⟨max, hmax, hlt, hcases⟩ := m.compose_eq security sec
  have hroom := (maxPayloadSize_room hmax).2
  rcases hcases with ⟨hl, hc⟩ | ⟨frags, out, hc, hdata, hsize, h1, h2, h3, h4⟩
  · obtain ⟨hwf, hcarry⟩ := m.carry_single hmax hlt hl
    have hlen := m.length_composed security sec hmax hc
    refine ⟨[m.packed.frame m.data], m.packed, hc, fun f hf => ⟨hwf f hf, ?_⟩, hcarry⟩
    exact Nat.lt_of_le_of_lt (hlen _ (List.mem_map_of_mem hf)) hroom
  · have hlen := m.length_composed security sec hmax hc
    refine ⟨frags.frames, out, hc, fun f hf => ⟨frags.wellFormed f hf, ?_⟩,
      m.carry_fragmented hdata hsize h1 h2 h3 h4⟩
    exact Nat.lt_of_le_of_lt (hlen _ (List.mem_map_of_mem hf)) hroom

end RpcMessage

theorem MobileConnection.composeAll_carry (security : Security δ) (sec : δ) (ms : List RpcMessage) :
    ∃ fs, composeAll security sec (ms.map RpcMessage.toOutMsg) = .ok (sec, fs.map encodeFrame) ∧
      (∀ f ∈ fs, WellFormed f ∧ (encodeFrame f).length < 2 ^ 32) ∧ Carry ms fs := by
  induction ms with
  | nil => exact ⟨[], rfl, by simp, Carry.nil⟩
  | cons m ms ih =>
    obtain ⟨fs, out, hc, hwf, hcarry⟩ := m.compose_carry security sec
    obtain ⟨gs, hcs, hwfs, hcarrys⟩ := ih
    refine ⟨fs ++ gs, ?_, ?_, hcarry.append hcarrys⟩
    · simp only [List.map_cons, composeAll, hc, hcs, bind, Except.bind, pure, Except.pure, List.map_append]
    · intro f hf
      rcases List.mem_append.mp hf with hf | hf
      · exact hwf f hf
      · exact hwfs f hf

/-! ### The frames of streams -/

namespace FileStream
variable {security : Security δ} {s s' : FileStream} {chunk m : Bytes}

/-- A stream whose chunks are sent as single unencrypted frames without a binary header. -/
structure Plain (s : FileStream) : Prop where
  encryption : s.encryption = false
  service : s.service = SERVICE_TYPE.PCM ∨ s.service = SERVICE_TYPE.VIDEO
  sessionId : s.sessionId < 256
  chunksize : ∀ max, maxPayloadSize s.version = .ok max → s.chunksize ≤ max

theorem Plain.service_lt (h : s.Plain) : s.service < 256 := by
  rcases h.service with hs | hs <;> rw [hs] <;> decide

theorem Plain.isBinaryDataHasHeader (h : s.Plain) : isBinaryDataHasHeader s.service = false := by
  rcases h.service with hs | hs <;> rw [hs] <;> decide

/-- The frame of a chunk of the stream. -/
def chunkFrame (s : FileStream) (messageId : Nat) (chunk : Bytes) : Header × Bytes :=
  (s.header messageId chunk).frame chunk

theorem Plain.fits (h : s.Plain) (messageId : Nat) (chunk : Bytes) : (s.header messageId chunk).Fits :=
  ⟨show 1 < 8 by decide, h.service_lt, show 0 < 256 by decide, h.sessionId⟩

/-- `m` is one frame with a chunk of the stream. -/
def IsChunk (s : FileStream) (m : Bytes) : Prop :=
  ∃ messageId chunk, WellFormed (s.chunkFrame messageId chunk) ∧ m = encodeFrame (s.chunkFrame messageId chunk)

/-- What `Compose` makes of a chunk: its frame, or a first frame and others if the chunk is too long. -/
theorem Plain.compose (h : s.Plain) {sec sec' : δ} {messageId : Nat} {frames : List Bytes} {message : OutMsg}
    (hc : Atf.compose security sec (s.header messageId chunk) = .ok (sec', frames, message)) :
    ∃ max, maxPayloadSize s.version = .ok max ∧
      ((chunk.length ≤ max ∧ frames.flatten = encodeFrame (s.chunkFrame messageId chunk) ∧
          WellFormed (s.chunkFrame messageId chunk)) ∨
        (max < chunk.length ∧ ∃ f rest, WellFormed f ∧ f.1.frameType = FRAME_TYPE.FIRST_FRAME ∧
          frames.flatten = encodeFrame f ++ rest)) := by
  obtain ⟨max, hmax, -⟩ := bind_eq_ok.mp hc
  have hmax : maxPayloadSize s.version = .ok max := hmax
  obtain ⟨hver, hlt⟩ := version_of_maxPayloadSize hmax
  refine ⟨max, hmax, ?_⟩
  by_cases hle : chunk.length ≤ max
  · rw [compose_header_plain hmax h.encryption h.service_lt h.sessionId sec messageId hle] at hc
    cases hc
    exact .inl ⟨hle, List.flatten_singleton .., (h.fits messageId chunk).wellFormed hver (by omega)⟩
  · have hlong : max < chunk.length := by omega
    rw [compose_header hmax, composeData_fragmented h.encryption h.service_lt h.sessionId rfl hmax
      (maxPayloadSize_room hmax).1 hlong] at hc
    cases hc
    refine .inr ⟨hlong, firstFrameOf (s.header messageId chunk) max chunk, _, ?_, rfl, List.flatten_cons⟩
    have hfits := firstFrameMessage_fits (m := s.header messageId chunk) h.service_lt h.sessionId
    exact (hfits _).wellFormed hver (by simp)

/-- A message that carries a chunk and is one frame has the chunk as its data. -/
theorem Carries.frame (hc : s.Carries security chunk m) (h : s.Plain) (hm : s.IsChunk m) :
    ∃ messageId, WellFormed (s.chunkFrame messageId chunk) ∧ m = encodeFrame (s.chunkFrame messageId chunk) := by
  obtain ⟨messageId, sec, sec', frames, message, hc, rfl⟩ := hc
  obtain ⟨max, hmax, ⟨-, hflat, hwf⟩ | ⟨-, f, rest, hwf, hfirst, hflat⟩⟩ := h.compose hc
  · exact ⟨messageId, hwf, hflat⟩
  · obtain ⟨messageId', chunk', hwf', hone⟩ := hm
    have hnext := nextFrame_encodeFrame hwf rest
    rw [← hflat, hone, ← List.append_nil (encodeFrame _), nextFrame_encodeFrame hwf' []] at hnext
    obtain ⟨rfl, -⟩ := Prod.mk.inj (Option.some.inj hnext)
    exact absurd (show 1 = 2 from hfirst) (by decide)

/-- A chunk that was just read is sent as one frame. -/
theorem Plain.getMessage (h : s.Plain) (hkeep : ∀ m, s.keep = some m → s.IsChunk m) {sec sec' : δ} {timestamp : Int}
    {msg : Option Bytes} {timeout : Option Nat}
    (hget : s.getMessage security sec timestamp = .ok (sec', msg, timeout, s')) :
    s'.Plain ∧ s'.IsChunk = s.IsChunk ∧ (∀ m, msg = some m ∨ s'.keep = some m → s.IsChunk m) := by
  rcases getMessage_cases hget with
    ⟨rfl, rfl⟩ | ⟨-, ⟨m, hk, rfl, rfl⟩ | ⟨hk, data, frames, message, hr, hc, rfl, rfl⟩⟩
  · refine ⟨h, rfl, ?_⟩
    rintro m (hm | hm)
    · cases hm
    · exact hkeep m hm
  · refine ⟨⟨h.encryption, h.service, h.sessionId, h.chunksize⟩, rfl, ?_⟩
    rintro m' (hm | hm)
    · cases hm
      exact hkeep m hk
    · cases hm
  · refine ⟨⟨h.encryption, h.service, h.sessionId, h.chunksize⟩, rfl, ?_⟩
    rintro m (hm | hm)
    · cases hm
      obtain ⟨max, hmax, ⟨-, hflat, hwf⟩ | ⟨hlong, -⟩⟩ := h.compose hc
      · exact ⟨_, data, hwf, hflat⟩
      · have hsize := h.chunksize max hmax
        obtain ⟨-, rfl⟩ := read_eq_some.mp hr
        rw [List.length_take] at hlong
        omega
    · cases hk.symm.trans hm

end FileStream

namespace FileConnection
variable {security : Security δ} {c c' : FileConnection δ} {clock : Nat → Int} {written : List Bytes}

/-- Every stream is plain, and what it keeps or has passed on are chunks. -/
def Chunked (c : FileConnection δ) : Prop :=
  ∀ n s, c.streams[n]? = some s →
    s.Plain ∧ (∀ m, s.keep = some m → s.IsChunk m) ∧ ∀ m ∈ proj (.stream n) c.sent, s.IsChunk m

namespace Chunked

theorem pass (h : Chunked c) {g : Gen} {m : Bytes}
    (hm : ∀ n s, g = .stream n → c.streams[n]? = some s → s.IsChunk m) : Chunked (c.pass g m) := by
  intro n s hs
  obtain ⟨hp, hk, hsent⟩ := h n s hs
  refine ⟨hp, hk, fun m' hm' => ?_⟩
  by_cases hg : g = .stream n
  · rw [hg, proj_pass_self] at hm'
    rcases List.mem_append.mp hm' with hm' | hm'
    · exact hsent m' hm'
    · exact List.mem_singleton.mp hm' ▸ hm n s hg hs
  · rw [proj_pass_of_ne c hg] at hm'
    exact hsent m' hm'

theorem keepMessage (h : Chunked c) {g : Gen} {m : Bytes}
    (hm : ∀ n s, g = .stream n → c.streams[n]? = some s → s.IsChunk m) : Chunked (c.keepMessage m g) := by
  cases g with
  | fbuf => exact h
  | stream n =>
    intro n' s' hs'
    rw [FileConnection.keepMessage, List.getElem?_modify] at hs'
    obtain ⟨s, hs, rfl⟩ := Option.map_eq_some_iff.mp hs'
    obtain ⟨hp, hk, hsent⟩ := h n' s hs
    by_cases hn : n = n'
    · subst hn
      rw [if_pos rfl]
      refine ⟨⟨hp.encryption, hp.service, hp.sessionId, hp.chunksize⟩, fun m' hm' => ?_, hsent⟩
      cases hm'
      exact hm n s rfl hs
    · rw [if_neg hn]
      exact ⟨hp, hk, hsent⟩

/-- Asking a generator for its message keeps the chunks, and a stream answers with one. -/
theorem getMessage (h : Chunked c) {g : Gen} {msg : Option Bytes} {timeout : Option Nat}
    (hget : c.getMessage security clock g = .ok (msg, timeout, c')) :
    Chunked c' ∧ ∀ m, msg = some m → ∀ n s, g = .stream n → c'.streams[n]? = some s → s.IsChunk m := by
  cases g with
  | fbuf =>
    obtain ⟨⟨msg, fbuf⟩, -, hget⟩ := bind_eq_ok.mp hget
    cases hget
    exact ⟨h, fun m hm n s hg => by cases hg⟩
  | stream n =>
    unfold FileConnection.getMessage at hget
    dsimp only at hget
    split at hget
    · rename_i s hs
      obtain ⟨⟨sec, msg, timeout, s'⟩, hm, hget⟩ := bind_eq_ok.mp hget
      cases hget
      obtain ⟨hp, hk, hsent⟩ := h n s hs
      obtain ⟨hp', hchunk, hmsg⟩ := hp.getMessage hk hm
      have hself : (c.streams.set n s')[n]? = some s' :=
        List.getElem?_set_self (List.getElem?_eq_some_iff.mp hs).1
      refine ⟨fun n' s'' hs'' => ?_, fun m hm n' s'' hg hs'' => ?_⟩
      · by_cases hn : n = n'
        · subst hn
          cases hself.symm.trans hs''
          exact ⟨hp', hchunk ▸ fun m hm => hmsg m (.inr hm), hchunk ▸ hsent⟩
        · rw [List.getElem?_set_ne hn] at hs''
          exact h n' s'' hs''
      · cases hg
        cases hself.symm.trans hs''
        rw [hchunk]
        exact hmsg m (.inl hm)
    · cases hget

theorem tryNext {done : Bool} (h : Chunked c) (hs : c.tryNext security clock = .ok (done, c')) : Chunked c' := by
  obtain ⟨g, msg, timeout, c₁, -, hget, hcase⟩ := tryNext_cases hs
  have h0 : Chunked { c with idx := c.nextIdx } := h
  obtain ⟨h1, hmsg⟩ := h0.getMessage hget
  rcases hcase with ⟨-, m, hm, -, -, rfl⟩ | ⟨-, m, hm, -, -, rfl⟩ | ⟨-, -, timer, rfl⟩
  · exact h1.pass (hmsg m hm)
  · exact h1.keepMessage (hmsg m hm)
  · exact h1

theorem bytesWritten {n : Nat} (h : Chunked c) (hs : c.bytesWritten security n clock = .ok c') : Chunked c' := by
  unfold FileConnection.bytesWritten at hs
  split at hs
  · cases hs
    exact h
  · exact tryLoop_invariant (fun c done c' h hs => h.tryNext hs)
      (show Chunked { c with bufferSize := c.bufferSize + n } from h) hs

theorem mapFile {s : FileStream} (h : Chunked c) (hf : Fifo security written c) (hs : s.Plain) (hk : s.keep = none) :
    Chunked (c.mapFile s) := by
  intro n s' hs'
  by_cases hn : n < c.streams.length
  · rw [FileConnection.mapFile, List.getElem?_append_left hn] at hs'
    exact h n s' hs'
  · have hle : c.streams.length ≤ n := Nat.le_of_not_lt hn
    rw [FileConnection.mapFile, List.getElem?_append_right hle, List.getElem?_singleton] at hs'
    split at hs'
    · cases hs'
      refine ⟨hs, fun m hm => absurd (hk.symm.trans hm) (by simp), ?_⟩
      rw [show proj (.stream n) (c.mapFile s).sent = [] from hf.fresh n hle]
      exact fun m hm => absurd hm List.not_mem_nil
    · cases hs'

end Chunked

end FileConnection

/-! ### The frames of messages and streams together -/

section Weave
variable (env : ParseEnv δ J)

/-- A chunk is a message of its own, whatever stands in the tables. -/
theorem handleFrame_chunk {f : Header × Bytes} (st : ParseState δ J) (he : f.1.encryption = false)
    (ht : f.1.frameType = FRAME_TYPE.SINGLE_FRAME) (hs : isBinaryDataHasHeader f.1.serviceType = false) :
    env.handleFrame st f = .ok { st with
      res := st.res ++ [plainMsg f], calls := st.calls ++ [plainMsg f] } := by
  by_cases hd : f.2 = []
  · simp [ParseEnv.handleFrame, decryptPayload, he, hd, pure, Except.pure, plainMsg]
  · have hs' : isBinaryDataHasHeader (plainMsg f : Msg J).serviceType = false := hs
    rw [handleFrame_single env st he hd ht, ParseEnv.parseData, hs']
    rfl

theorem foldlM_handleFrame_from (fs : List (Header × Bytes)) (st : ParseState δ J) :
    fs.foldlM env.handleFrame st =
      (fs.foldlM env.handleFrame ⟨st.sec, st.frames, st.totalSize, [], []⟩).map (·.prepend st.res st.calls) := by
  rw [← foldlM_handleFrame_append]
  congr 1
  simp [ParseState.prepend]

/-- Chunks between the frames of messages change neither the messages nor the tables. -/
theorem foldlM_weave {fs : List (Gen × (Header × Bytes))}
    (hchunk : ∀ n f, (Gen.stream n, f) ∈ fs → f.1.encryption = false ∧ f.1.frameType = FRAME_TYPE.SINGLE_FRAME ∧
      isBinaryDataHasHeader f.1.serviceType = false)
    {sec : δ} {frames : Table String Bytes} {totalSize : Table String Nat} {st : ParseState δ J}
    (h : (proj .fbuf fs).foldlM env.handleFrame ⟨sec, frames, totalSize, [], []⟩ = .ok st) :
    ∃ (arrived : List (Gen × Msg J)) (calls : List (Msg J)),
      (fs.map Prod.snd).foldlM env.handleFrame ⟨sec, frames, totalSize, [], []⟩ =
        .ok ⟨st.sec, st.frames, st.totalSize, arrived.map Prod.snd, calls⟩ ∧
      proj .fbuf arrived = st.res ∧ ∀ n, proj (.stream n) arrived = (proj (.stream n) fs).map plainMsg := by
  induction fs generalizing sec frames totalSize st with
  | nil =>
    cases h
    exact ⟨[], [], rfl, rfl, fun n => rfl⟩
  | cons x fs ih =>
    obtain ⟨g, f⟩ := x
    have htail : ∀ n f, (Gen.stream n, f) ∈ fs → f.1.encryption = false ∧
        f.1.frameType = FRAME_TYPE.SINGLE_FRAME ∧ isBinaryDataHasHeader f.1.serviceType = false :=
      fun n f hf => hchunk n f (List.mem_cons_of_mem _ hf)
    rw [List.map_cons, List.foldlM_cons]
    cases g with
    | fbuf =>
      -- a frame of a message: what it returns comes first
      rw [proj_cons_self, List.foldlM_cons] at h
      obtain ⟨st₁, h₁, h⟩ := bind_eq_ok.mp h
      rw [foldlM_handleFrame_from] at h
      obtain ⟨st₂, h₂, rfl⟩ := map_eq_ok.mp h
      obtain ⟨arrived, calls, hfold, hmsgs, hstreams⟩ := ih htail h₂
      refine ⟨st₁.res.map (Gen.fbuf, ·) ++ arrived, st₁.calls ++ calls, ?_, ?_, fun n => ?_⟩
      · rw [h₁]
        show (fs.map Prod.snd).foldlM env.handleFrame st₁ = _
        rw [foldlM_handleFrame_from, hfold]
        simp [Except.map, ParseState.prepend, Function.comp_def]
      · rw [proj_append, proj_tagged, if_pos rfl, hmsgs]
        rfl
      · rw [proj_append, proj_tagged, if_neg (by simp), hstreams, proj_cons_of_ne (by simp), List.nil_append]
    | stream n =>
      rw [proj_cons_of_ne (by simp)] at h
      obtain ⟨he, ht, hs⟩ := hchunk n f (List.mem_cons_self ..)
      obtain ⟨arrived, calls, hfold, hmsgs, hstreams⟩ := ih htail h
      refine ⟨(.stream n, plainMsg f) :: arrived, plainMsg f :: calls, ?_, ?_, fun n' => ?_⟩
      · rw [handleFrame_chunk env _ he ht hs]
        show (fs.map Prod.snd).foldlM env.handleFrame ⟨sec, frames, totalSize, [plainMsg f], [plainMsg f]⟩ = _
        rw [foldlM_handleFrame_from, hfold]
        rfl
      · rw [proj_cons_of_ne (by simp), hmsgs]
      · by_cases hn : n = n'
        · subst hn
          rw [proj_cons_self, proj_cons_self, hstreams, List.map_cons]
        · rw [proj_cons_of_ne (by simp [hn]), proj_cons_of_ne (by simp [hn]), hstreams]

end Weave

/-! ### The run -/

theorem FileStream.plain_new {filename : String} {content : Option Bytes} {version sessionId service bandwidth : Nat}
    {ts : Int} {s : FileStream} (hservice : service = SERVICE_TYPE.PCM ∨ service = SERVICE_TYPE.VIDEO)
    (hsession : sessionId < 256)
    (h : new filename content version sessionId service false bandwidth ts = .ok s) : s.Plain ∧ s.keep = none := by
  unfold new at h
  split at h
  · rename_i size hsize
    dsimp only at h
    split at h
    · cases h
      refine ⟨⟨rfl, hservice, hsession, fun max hmax => ?_⟩, rfl⟩
      rw [maxPayloadSize, getProtocolFrameSize, hsize] at hmax
      cases hmax
      dsimp only
      split <;> omega
    · cases h
  · cases h

namespace MobileConnection
variable {security : Security δ}

/-- The frames given to the connection carry the messages, and the dispatcher keeps their order. -/
def Wired (security : Security δ) (s : Sending δ) : Prop :=
  ∃ fs, (∀ f ∈ fs, WellFormed f) ∧ Carry s.messages fs ∧
    FileConnection.Fifo security (fs.map encodeFrame) s.conn ∧ s.conn.Chunked

theorem Wired.start (security : Security δ) (window : Nat) (sec : δ) : Wired security (.start window sec) :=
  ⟨[], by simp, Carry.nil, .start security window sec,
    fun n s hs => absurd hs (by simp [Sending.start, FileConnection.new])⟩

theorem encodeFrame_ne_nil (f : Header × Bytes) : encodeFrame f ≠ [] := by simp [encodeFrame]

theorem Wired.send {s : Sending δ} {conn : FileConnection δ} {data : List RpcMessage} {clock : Nat → Int}
    (h : Wired security s)
    (hs : MobileConnection.send security s.conn (data.map RpcMessage.toOutMsg) clock = .ok conn) :
    Wired security ⟨conn, s.messages ++ data⟩ := by
  obtain ⟨fs, hwf, hcarry, hfifo, hchunked⟩ := h
  obtain ⟨gs, hall, hgs, hcarry'⟩ := composeAll_carry security s.conn.sec data
  have hs : s.conn.send security (gs.map encodeFrame) clock = .ok conn := by
    rw [MobileConnection.send, hall] at hs
    exact hs
  obtain ⟨fbuf, hw, hp⟩ := FileConnection.send_eq_ok hs
  have hsend : Sendable (gs.map encodeFrame) := by
    intro m hm
    obtain ⟨f, hf, rfl⟩ := List.mem_map.mp hm
    exact ⟨encodeFrame_ne_nil f, (hgs f hf).2⟩
  refine ⟨fs ++ gs, ?_, hcarry.append hcarry', ?_, ?_⟩
  · intro f hf
    rcases List.mem_append.mp hf with hf | hf
    · exact hwf f hf
    · exact (hgs f hf).1
  · rw [List.map_append]
    exact (hfifo.send hsend hw).bytesWritten hp
  · exact (show FileConnection.Chunked { s.conn with fbuf := fbuf.flush } from hchunked).bytesWritten hp

theorem Wired.connection {s : Sending δ} {conn : FileConnection δ} {e : FileConnection.Event}
    (h : Wired security s) (hplain : Plain s (.connection e)) (hs : s.conn.handle security e = .ok conn) :
    Wired security ⟨conn, s.messages⟩ := by
  obtain ⟨fs, hwf, hcarry, hfifo, hchunked⟩ := h
  refine ⟨fs, hwf, hcarry, ?_, ?_⟩
  · have hframes : e.frames = [] := by
      cases e with
      | send => exact absurd hplain id
      | startStreaming | stopStreaming | timeout | bytesWritten => rfl
    have hstep : FileConnection.History.step security ⟨s.conn, fs.map encodeFrame, 0⟩ e =
        .ok ⟨conn, fs.map encodeFrame ++ e.frames, 0 + e.acked⟩ := by
      rw [FileConnection.History.step, hs]
      rfl
    have hafter := hfifo.step (h := ⟨s.conn, fs.map encodeFrame, 0⟩) (by simp [hframes, Sendable]) hstep
    rw [hframes, List.append_nil] at hafter
    exact hafter
  · cases e with
    | send => exact absurd hplain id
    | startStreaming session version service encryption filename content bandwidth ts clock =>
      obtain ⟨rfl, hservice, hsession⟩ := hplain
      obtain ⟨stream, hnew, hp⟩ := FileConnection.startStreaming_eq_ok hs
      obtain ⟨hstream, hkeep⟩ := FileStream.plain_new hservice hsession hnew
      exact (hchunked.mapFile hfifo hstream hkeep).bytesWritten hp
    | stopStreaming filename =>
      obtain ⟨n, rfl⟩ := FileConnection.stopStreaming_eq_ok hs
      exact hchunked
    | timeout clock => exact hchunked.bytesWritten hs
    | bytesWritten n clock => exact hchunked.bytesWritten hs

theorem Wired.step {s s' : Sending δ} {c : Call} (h : Wired security s) (hplain : Plain s c)
    (hs : s.step security c = .ok s') : Wired security s' := by
  cases c with
  | send data clock =>
    obtain ⟨conn, hc, hs⟩ := bind_eq_ok.mp hs
    cases hs
    exact h.send hc
  | connection e =>
    obtain ⟨conn, hc, hs⟩ := bind_eq_ok.mp hs
    cases hs
    exact h.connection hplain hc

/-! ### What has been passed on, as frames -/

/-- Everything given to the connection has been read from the buffer file. -/
def Drained (c : FileConnection δ) : Prop := c.fbuf.keep = none ∧ c.fbuf.file.length ≤ c.fbuf.rpos

theorem exists_frames {P : Gen → Header × Bytes → Prop} {sent : List (Gen × Bytes)}
    (h : ∀ x ∈ sent, ∃ f, P x.1 f ∧ x.2 = encodeFrame f) :
    ∃ fs : List (Gen × (Header × Bytes)), sent = fs.map (fun x => (x.1, encodeFrame x.2)) ∧ ∀ x ∈ fs, P x.1 x.2 := by
  induction sent with
  | nil => exact ⟨[], rfl, by simp⟩
  | cons x sent ih =>
    obtain ⟨f, hf, hx⟩ := h x (List.mem_cons_self ..)
    obtain ⟨fs, rfl, hfs⟩ := ih fun y hy => h y (List.mem_cons_of_mem _ hy)
    refine ⟨(x.1, f) :: fs, by rw [List.map_cons, ← hx], ?_⟩
    intro y hy
    rcases List.mem_cons.mp hy with rfl | hy
    · exact hf
    · exact hfs y hy

theorem map_encodeFrame_inj {fs gs : List (Header × Bytes)} (hfs : ∀ f ∈ fs, WellFormed f)
    (hgs : ∀ f ∈ gs, WellFormed f) (h : fs.map encodeFrame = gs.map encodeFrame) : fs = gs := by
  have hsplit := split_encodeFrames hfs
  rw [h, split_encodeFrames hgs] at hsplit
  exact (Prod.mk.inj hsplit).1.symm

/-- The frame of a generator: that of a message, or a chunk of a stream. -/
def FrameOf (c : FileConnection δ) (g : Gen) (f : Header × Bytes) : Prop :=
  WellFormed f ∧ ∀ n, g = .stream n → ∃ s messageId chunk, c.streams[n]? = some s ∧ s.Plain ∧
    f = s.chunkFrame messageId chunk

theorem FrameOf.chunk {c : FileConnection δ} {n : Nat} {f : Header × Bytes} (h : FrameOf c (.stream n) f) :
    f.1.encryption = false ∧ f.1.frameType = FRAME_TYPE.SINGLE_FRAME ∧
      isBinaryDataHasHeader f.1.serviceType = false := by
  obtain ⟨-, h⟩ := h
  obtain ⟨s, messageId, chunk, -, hplain, rfl⟩ := h n rfl
  exact ⟨hplain.encryption, rfl, hplain.isBinaryDataHasHeader⟩

/-- The chunks of a stream that were passed on. -/
def Chunks (s : FileStream) (fs : List (Header × Bytes)) (chunks : List Bytes) : Prop :=
  List.Forall₂ (fun chunk f => ∃ messageId, f = s.chunkFrame messageId chunk) chunks fs

theorem encodeFrame_inj {f g : Header × Bytes} (hf : WellFormed f) (hg : WellFormed g)
    (h : encodeFrame f = encodeFrame g) : f = g := by
  have hone : [f] = [g] := map_encodeFrame_inj (by simpa using hf) (by simpa using hg) (by simp [h])
  exact List.singleton_inj.mp hone

/-- Every message passed on is a frame. -/
theorem frameOf_sent {s : Sending δ} {gs : List (Header × Bytes)} (hwf : ∀ f ∈ gs, WellFormed f)
    (hfifo : FileConnection.Fifo security (gs.map encodeFrame) s.conn) (hchunked : s.conn.Chunked) :
    ∀ x ∈ s.conn.sent, ∃ f, FrameOf s.conn x.1 f ∧ x.2 = encodeFrame f := by
  rintro ⟨g, m⟩ hm
  cases g with
  | fbuf =>
    obtain ⟨todo, hwritten, -⟩ := hfifo.storage
    have hmem : m ∈ gs.map encodeFrame := by
      rw [hwritten]
      exact List.mem_append_left _ (List.mem_append_left _ (mem_proj hm))
    obtain ⟨f, hf, rfl⟩ := List.mem_map.mp hmem
    exact ⟨f, ⟨hwf f hf, fun n hn => absurd hn (by simp)⟩, rfl⟩
  | stream n =>
    obtain ⟨stream, hs⟩ : ∃ stream, s.conn.streams[n]? = some stream := by
      by_contra hnone
      have hle : s.conn.streams.length ≤ n := by
        rw [← List.getElem?_eq_none_iff]
        exact Option.eq_none_iff_forall_not_mem.mpr fun stream hs => hnone ⟨stream, hs⟩
      exact absurd (mem_proj hm) (by rw [hfifo.fresh n hle]; exact List.not_mem_nil)
    obtain ⟨hplain, -, hchunks⟩ := hchunked n stream hs
    obtain ⟨messageId, chunk, hwf', rfl⟩ := hchunks m (mem_proj hm)
    exact ⟨_, ⟨hwf', fun n' hn' => by cases hn'; exact ⟨stream, messageId, chunk, hs, hplain, rfl⟩⟩, rfl⟩

/-- The chunks that a stream has read, but for the kept one, are the data of the frames it has passed on. -/
theorem chunks_of_holds {c : FileConnection δ} {n : Nat} {stream : FileStream} (hs : c.streams[n]? = some stream)
    {fs : List (Header × Bytes)} (hfs : ∀ f ∈ fs, FrameOf c (.stream n) f)
    (h : stream.Holds security (fs.map encodeFrame)) :
    ∃ chunks, chunks.flatten <+: stream.content ∧
      (stream.keep = none → stream.content.length ≤ stream.rpos → chunks.flatten = stream.content) ∧
      Chunks stream fs chunks := by
  obtain ⟨chunks, hflat, hall⟩ := h
  refine ⟨chunks.take fs.length, ?_, fun hk hend => ?_, ?_⟩
  · have hpre : (chunks.take fs.length).flatten <+: chunks.flatten :=
      ⟨(chunks.drop fs.length).flatten, by rw [← List.flatten_append, List.take_append_drop]⟩
    exact hpre.trans (hflat ▸ List.take_prefix _ _)
  · have hlen := hall.length_eq
    rw [hk, Option.toList_none, List.append_nil, List.length_map] at hlen
    rw [List.take_of_length_le (by omega), hflat, List.take_of_length_le hend]
  · have htake := List.forall₂_take_append chunks (fs.map encodeFrame) stream.keep.toList hall
    rw [List.length_map, List.forall₂_map_right_iff] at htake
    have hmem := (List.forall₂_and_left (p := FrameOf c (.stream n)) _ _).mpr ⟨hfs, htake.flip⟩
    refine hmem.flip.imp ?_
    rintro chunk f ⟨⟨hwf, hof⟩, hcarries⟩
    obtain ⟨s', messageId, chunk', hs', hplain, rfl⟩ := hof n rfl
    cases hs.symm.trans hs'
    obtain ⟨messageId', hwf', heq⟩ :=
      FileStream.Carries.frame hcarries hplain ⟨messageId, chunk', hwf, rfl⟩
    exact ⟨messageId', encodeFrame_inj hwf hwf' heq⟩

theorem Wired.frames {s : Sending δ} (h : Wired security s) :
    ∃ fs gs, s.conn.sent = fs.map (fun x => (x.1, encodeFrame x.2)) ∧ (∀ x ∈ fs, FrameOf s.conn x.1 x.2) ∧
      Carry s.messages gs ∧ proj .fbuf fs <+: gs ∧ (Drained s.conn → proj .fbuf fs = gs) ∧
      ∀ n stream, s.conn.streams[n]? = some stream → ∃ chunks, chunks.flatten <+: stream.content ∧
        (stream.keep = none → stream.content.length ≤ stream.rpos → chunks.flatten = stream.content) ∧
        Chunks stream (proj (.stream n) fs) chunks := by
  obtain ⟨gs, hwf, hcarry, hfifo, hchunked⟩ := h
  obtain ⟨fs, hsent, hfs⟩ := exists_frames (frameOf_sent hwf hfifo hchunked)
  have hproj : ∀ g, proj g s.conn.sent = (proj g fs).map encodeFrame := fun g => by rw [hsent, proj_map]
  have hmem : ∀ g, ∀ f ∈ proj g fs, FrameOf s.conn g f := by
    intro g f hf
    obtain ⟨⟨g', f'⟩, hx, rfl⟩ := List.mem_map.mp hf
    obtain ⟨hx, hg⟩ := List.mem_filter.mp hx
    exact of_decide_eq_true hg ▸ hfs _ hx
  obtain ⟨todo, hwritten, -, hfile, -⟩ := hfifo.storage
  rw [hproj, List.append_assoc] at hwritten
  obtain ⟨pre, post, hgs, hpre, hpost⟩ := List.map_eq_append_iff.mp hwritten
  have hpre : pre = proj .fbuf fs :=
    map_encodeFrame_inj (fun f hf => hwf f (hgs ▸ List.mem_append_left _ hf)) (fun f hf => (hmem _ f hf).1) hpre
  refine ⟨fs, gs, hsent, hfs, hcarry, ⟨post, by rw [hgs, hpre]⟩, ?_, ?_⟩
  · rintro ⟨hk, hend⟩
    rw [List.drop_eq_nil_of_le hend] at hfile
    have htodo : todo = [] := by
      cases todo with
      | nil => rfl
      | cons m todo => simp [fileRecord, le32, be32] at hfile
    rw [hk, htodo] at hpost
    rw [hgs, hpre, List.map_eq_nil_iff.mp hpost, List.append_nil]
  · intro n stream hs
    have hholds := hfifo.streams n stream hs
    rw [hproj] at hholds
    exact chunks_of_holds hs (hmem (.stream n)) hholds

end MobileConnection

/-! ### What the other side reads -/

/-- After a call nothing more is read without more bytes. -/
theorem parse_nil (env : ParseEnv δ J) {self : ProtocolHandler} {sec : δ} {b : Bytes} {p : Parsed δ J}
    (h : env.parse self sec b = .ok p) : env.parse p.handler p.sec [] = .ok ⟨p.handler, p.sec, [], []⟩ := by
  rw [parse_eq] at h
  obtain ⟨st, -, rfl⟩ := map_eq_ok.mp h
  rw [parse_eq, List.append_nil, wire.split_rest]
  rfl

/-- Reading the first of the bytes in chunks returns the first of the messages. -/
theorem parseAll_part (env : ParseEnv δ J) {chunks : List Bytes} {rest : Bytes} {self : ProtocolHandler} {sec : δ}
    {q : Parsed δ J} (h : env.parse self sec (chunks.flatten ++ rest) = .ok q)
    (hself : env.parse self sec [] = .ok ⟨self, sec, [], []⟩) :
    ∃ p, env.parseAll self sec chunks = .ok p ∧ p.res <+: q.res ∧ (rest = [] → p.res = q.res) := by
  induction chunks generalizing self sec q with
  | nil =>
    refine ⟨_, rfl, List.nil_prefix, ?_⟩
    rintro rfl
    cases h.symm.trans hself
    rfl
  | cons b bs ih =>
    rw [List.flatten_cons, List.append_assoc, parse_append] at h
    obtain ⟨p₁, h₁, h⟩ := bind_eq_ok.mp h
    obtain ⟨q₁, h₂, h⟩ := bind_eq_ok.mp h
    cases h
    obtain ⟨p₂, h₃, hpre, hall⟩ := ih h₂ (parse_nil env h₁)
    refine ⟨⟨p₂.handler, p₂.sec, p₁.res ++ p₂.res, p₁.calls ++ p₂.calls⟩, ?_, ?_, ?_⟩
    · simp only [ParseEnv.parseAll, h₁, h₃, bind, Except.bind, pure, Except.pure]
    · exact (List.prefix_append_right_inj _).mpr hpre
    · exact fun hrest => congrArg (p₁.res ++ ·) (hall hrest)

namespace MobileConnection
variable {security : Security δ}

/-- Apart from each other, what has arrived is a part of the messages in their order, and of each stream a part of
its file. -/
structure Arrived (decode : Bytes → Option J) (s : Sending δ) (arrived : List (Gen × Msg J)) : Prop where
  messages : ∃ n, List.Forall₂ (Received decode) (s.messages.take n) (proj .fbuf arrived)
  streams : ∀ n stream, s.conn.streams[n]? = some stream →
    (∀ msg ∈ proj (.stream n) arrived, msg.serviceType = stream.service ∧ msg.sessionId = stream.sessionId) ∧
      ((proj (.stream n) arrived).map (·.binaryData)).flatten <+: stream.content
  others : ∀ n, s.conn.streams[n]? = none → proj (.stream n) arrived = []

/-- The messages of a stream have the ids of the stream, and the chunks as their data. -/
theorem Chunks.messages {stream : FileStream} {fs : List (Header × Bytes)} {chunks : List Bytes}
    (h : Chunks stream fs chunks) :
    (fs.map fun f => (plainMsg f : Msg J).binaryData) = chunks ∧
      ∀ msg ∈ fs.map (plainMsg (J := J)), msg.serviceType = stream.service ∧ msg.sessionId = stream.sessionId := by
  induction h with
  | nil => exact ⟨rfl, by simp⟩
  | cons hf _ ih =>
    obtain ⟨messageId, rfl⟩ := hf
    obtain ⟨hdata, hids⟩ := ih
    refine ⟨by rw [List.map_cons, hdata]; rfl, fun msg hmsg => ?_⟩
    rcases List.mem_cons.mp hmsg with rfl | hmsg
    · exact ⟨rfl, rfl⟩
    · exact hids msg hmsg

theorem proj_frames_eq_nil {c : FileConnection δ} {n : Nat} {fs : List (Gen × (Header × Bytes))}
    (hfs : ∀ x ∈ fs, FrameOf c x.1 x.2) (hn : c.streams[n]? = none) : proj (.stream n) fs = [] := by
  rw [proj_eq_nil_iff]
  intro hmem
  obtain ⟨⟨g, f⟩, hx, rfl⟩ := List.mem_map.mp hmem
  obtain ⟨stream, messageId, chunk, hs, -⟩ := (hfs _ hx).2 n rfl
  cases hn.symm.trans hs

theorem Arrived.part {decode : Bytes → Option J} {s : Sending δ} {total arrived : List (Gen × Msg J)}
    (h : Arrived decode s total) (harr : arrived <+: total) : Arrived decode s arrived := by
  refine ⟨?_, fun n stream hs => ?_, fun n hs => ?_⟩
  · obtain ⟨k, hall⟩ := h.messages
    obtain ⟨rest, hrest⟩ := proj_part .fbuf harr
    rw [← hrest] at hall
    refine ⟨min (proj .fbuf arrived).length k, ?_⟩
    rw [← List.take_take]
    exact List.forall₂_take_append _ _ _ hall
  · obtain ⟨hids, hdata⟩ := h.streams n stream hs
    obtain ⟨rest, hrest⟩ := proj_part (.stream n) harr
    refine ⟨fun msg hmsg => hids msg (hrest ▸ List.mem_append_left _ hmsg), ?_⟩
    refine List.IsPrefix.trans ⟨(rest.map (·.binaryData)).flatten, ?_⟩ hdata
    rw [← hrest, List.map_append, List.flatten_append]
  · obtain ⟨rest, hrest⟩ := proj_part (.stream n) harr
    rw [h.others n hs] at hrest
    exact (List.append_eq_nil_iff.mp hrest).1

/-- Part of the frames are read as part of the messages. -/
theorem Carry.part {ms : List RpcMessage} {gs fs : List (Header × Bytes)} (h : Carry ms gs) (hpre : fs <+: gs)
    (env : ParseEnv δ J) (hv : env.validateJson = false) (sec : δ) :
    ∃ st, fs.foldlM env.handleFrame ⟨sec, Table.empty, Table.empty, [], []⟩ = .ok st ∧
      (∃ n, List.Forall₂ (Received env.decode) (ms.take n) st.res) ∧
      (fs = gs → List.Forall₂ (Received env.decode) ms st.res) := by
  obtain ⟨rest, rfl⟩ := hpre
  obtain ⟨msgs, calls, hmsgs, hfold⟩ := h env hv sec
  rw [List.foldlM_append] at hfold
  obtain ⟨st, hst, hrest⟩ := bind_eq_ok.mp hfold
  rw [foldlM_handleFrame_from] at hrest
  obtain ⟨st', hst', heq⟩ := map_eq_ok.mp hrest
  have hres : st.res ++ st'.res = msgs := congrArg ParseState.res heq
  rw [← hres] at hmsgs
  refine ⟨st, hst, ⟨_, List.forall₂_take_append _ _ _ hmsgs⟩, fun hall => ?_⟩
  rw [List.self_eq_append_right.mp hall] at hst'
  cases hst'
  rw [List.append_nil] at hmsgs
  exact hmsgs

/-- Reading everything that was passed on, with each message under the generator it came from. -/
theorem Wired.read_all {s : Sending δ} (h : Wired security s) {δ' : Type} (env : ParseEnv δ' J)
    (hv : env.validateJson = false) (sec : δ') :
    ∃ (q : Parsed δ' J) (total : List (Gen × Msg J)),
      env.parse .new sec (s.conn.sent.map Prod.snd).flatten = .ok q ∧ q.res = total.map Prod.snd ∧
      Arrived env.decode s total ∧
      (Drained s.conn → List.Forall₂ (Received env.decode) s.messages (proj .fbuf total)) ∧
      ∀ n stream, s.conn.streams[n]? = some stream → stream.keep = none → stream.content.length ≤ stream.rpos →
        ((proj (.stream n) total).map (·.binaryData)).flatten = stream.content := by
  obtain ⟨fs, gs, hsent, hfs, hcarry, hpre, hdrained, hstreams⟩ := h.frames
  obtain ⟨st, hst, hsome, hall⟩ := Carry.part hcarry hpre env hv sec
  obtain ⟨total, calls, hweave, htotal, htagged⟩ := foldlM_weave env (fun n f hf => (hfs _ hf).chunk) hst
  have hwf : ∀ f ∈ fs.map Prod.snd, WellFormed f := by
    intro f hf
    obtain ⟨x, hx, rfl⟩ := List.mem_map.mp hf
    exact (hfs x hx).1
  have hparse := parse_encodeFrames env hwf Table.empty Table.empty sec
  rw [hweave, List.map_map] at hparse
  rw [hsent, List.map_map]
  refine ⟨_, total, hparse, rfl, ⟨?_, fun n stream hs => ?_, fun n hs => ?_⟩, ?_, fun n stream hs hk hend => ?_⟩
  · rw [htotal]
    exact hsome
  · obtain ⟨chunks, hcontent, -, hchunks⟩ := hstreams n stream hs
    obtain ⟨hdata, hids⟩ := hchunks.messages (J := J)
    rw [htagged]
    refine ⟨hids, ?_⟩
    rw [List.map_map]
    exact hdata ▸ hcontent
  · rw [htagged, proj_frames_eq_nil hfs hs, List.map_nil]
  · intro hd
    rw [htotal]
    exact hall (hdrained hd)
  · obtain ⟨chunks, -, hcontent, hchunks⟩ := hstreams n stream hs
    rw [htagged, List.map_map]
    exact (congrArg List.flatten (hchunks.messages (J := J)).1).trans (hcontent hk hend)

/-- In every run, whatever pieces the bytes arrive in: the other side reads without raising, what it has read are the
first of the messages and, between them, the first chunks of each streamed file, and nothing else. When everything
was passed on and read, these are all messages, and the whole of each file that has been read to its end. -/
theorem received_in_order {window : Nat} {sec : δ} {s : Sending δ}
    (hr : Run.Reaches (Sending.step security) Plain (.start window sec) s) {δ' : Type} (env : ParseEnv δ' J)
    (hv : env.validateJson = false) (sec' : δ') (chunks : List Bytes)
    (hchunks : chunks.flatten <+: (s.conn.sent.map Prod.snd).flatten) :
    ∃ (p : Parsed δ' J) (arrived : List (Gen × Msg J)), env.parseAll .new sec' chunks = .ok p ∧
      p.res = arrived.map Prod.snd ∧ Arrived env.decode s arrived ∧
      (chunks.flatten = (s.conn.sent.map Prod.snd).flatten →
        (Drained s.conn → List.Forall₂ (Received env.decode) s.messages (proj .fbuf arrived)) ∧
        ∀ n stream, s.conn.streams[n]? = some stream → stream.keep = none → stream.content.length ≤ stream.rpos →
          ((proj (.stream n) arrived).map (·.binaryData)).flatten = stream.content) := by
  have hw : Wired security s := hr.invariant (.start security window sec) fun _ _ _ h hp hs => h.step hp hs
  obtain ⟨q, total, hq, hres, harrived, hcomplete⟩ := hw.read_all env hv sec'
  obtain ⟨rest, hrest⟩ := hchunks
  rw [← hrest] at hq
  have hnil : env.parse .new sec' [] = .ok ⟨.new, sec', [], []⟩ :=
    parse_encodeFrames env (List.forall_mem_nil _) Table.empty Table.empty sec'
  obtain ⟨p, hp, hpre, hall⟩ := parseAll_part env hq hnil
  refine ⟨p, total.take p.res.length, hp, ?_, harrived.part (List.take_prefix _ _), fun heq => ?_⟩
  · rw [List.map_take, ← hres]
    exact List.prefix_iff_eq_take.mp hpre
  · have hrest : rest = [] := by rw [← heq] at hrest; exact List.append_right_eq_self.mp hrest
    have hlen : total.take p.res.length = total := by
      rw [hall hrest, hres, List.length_map, List.take_length]
    rw [hlen]
    exact hcomplete

def sampleMessage : RpcMessage where
  version := 3
  serviceType := SERVICE_TYPE.RPC
  frameInfo := 0
  sessionId := 1
  messageId := 7
  rpcType := BINARY_RPC_TYPE.REQUEST
  rpcFunctionId := 5
  rpcCorrelationId := 65537
  payload := [123, 125]
  binaryData := some [1, 2, 3]
  version_range := by decide
  service := .inl rfl
  frameInfo_byte := by decide
  sessionId_byte := by decide
  messageId_word := by decide
  rpcType_range := by decide
  rpcFunctionId_range := by decide
  rpcCorrelationId_range := by decide
  length := by decide

/-- The second message waits for the first to be acknowledged, and a chunk comes before it. -/
def sampleCalls : List Call :=
  [.send [sampleMessage, sampleMessage] (fun _ => 0),
    .connection (.startStreaming 1 3 SERVICE_TYPE.VIDEO false "video" (some [9, 8, 7]) (some 4) 0 (fun _ => 1000)),
    .connection (.bytesWritten 29 (fun _ => 1000)), .connection (.timeout (fun _ => 2000)),
    .connection (.bytesWritten 14 (fun _ => 2000)), .connection (.bytesWritten 13 (fun _ => 2000))]

theorem received_in_order_sample :
    ∃ s, Run.exec (Sending.step FileConnection.transparent) Plain (.start 40 ()) sampleCalls = some s ∧
      ∃ (p : Parsed Unit Bytes) (arrived : List (Gen × Msg Bytes)),
        ParseEnv.parseAll ⟨FileConnection.transparent, some, false⟩ .new () (s.conn.sent.map Prod.snd) = .ok p ∧
          p.res = arrived.map Prod.snd ∧ Arrived some s arrived := by
  obtain ⟨s, hs⟩ := Option.isSome_iff_exists.mp (show (Run.exec (Sending.step FileConnection.transparent) Plain
    (.start 40 ()) sampleCalls).isSome = true by decide +kernel)
  obtain ⟨p, arrived, hp, hres, harrived, -⟩ := received_in_order (.of_exec .start hs)
    (⟨FileConnection.transparent, some, false⟩ : ParseEnv Unit Bytes) rfl () (s.conn.sent.map Prod.snd)
    (List.prefix_refl _)
  exact ⟨s, hs, p, arrived, hp, hres, harrived⟩

end MobileConnection

end Atf
