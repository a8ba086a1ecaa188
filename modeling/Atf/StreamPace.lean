import Atf.ComposePlain
import Atf.DispatchFifo

/-!
# The pace of a stream

`GetMessage` compares the bytes read so far and a whole chunk with the time since the stream was made, and reads a
chunk only if the bandwidth allows both. So what has been read is within the limit at the time of the read, and the
limit only grows. A message that is kept goes through the same test once more, but its bytes are not counted again,
and nothing is read as long as a message is kept.

A call may raise, in `Compose` and after the chunk was read: it is counted all the same (`skipped`), and what is left
of the state of the security layer is not said.
-/

namespace Atf
open Lua

namespace FileStream
variable {δ : Type} {security : Security δ} {s s' : FileStream}

/-- The chunk that a call of `GetMessage` reads. -/
def reads (s : FileStream) (timestamp : Int) : Option Bytes :=
  if exceeds (s.bytesSent + s.chunksize) (timestamp - s.ts) s.bandwidth then none
  else if s.keep.isSome then none
  else Lua.read s.content s.rpos s.chunksize

/-- The stream after it has read a chunk. -/
def skipped (s : FileStream) (data : Bytes) : FileStream :=
  { s with rpos := s.rpos + data.length, bytesSent := s.bytesSent + data.length, messageId := s.messageId + 1 }

/-- A chunk that is read is given to `Compose`, whose frames are the message. -/
theorem getMessage_of_reads {timestamp : Int} {data : Bytes} (sec : δ) (h : s.reads timestamp = some data) :
    s.getMessage security sec timestamp =
      (compose security sec (s.header (s.messageId + 1) data)).map fun r =>
        (r.1, some r.2.1.flatten, none, s.skipped data) := by
  unfold reads at h
  split at h
  · cases h
  rename_i hlimit
  split at h
  · cases h
  rename_i hkeep
  have hkeep : s.keep = none := by simpa using hkeep
  simp only [getMessage, if_neg hlimit, hkeep, h]
  show (compose security sec (s.header (s.messageId + 1) data) >>= fun r =>
    .ok (r.1, some r.2.1.flatten, none, _)) = _
  have hself : ({ s with rpos := s.rpos + data.length, bytesSent := s.bytesSent + data.length
                         messageId := s.messageId + 1, keep := none } : FileStream) = s.skipped data := by
    rw [skipped, ← hkeep]
  rw [hself]
  rfl

/-- Otherwise the call does not raise, and its message is the kept one or none. -/
theorem getMessage_of_not_reads {timestamp : Int} (sec : δ) (h : s.reads timestamp = none) :
    ∃ msg timeout keep, s.getMessage security sec timestamp = .ok (sec, msg, timeout, { s with keep }) := by
  unfold reads at h
  unfold getMessage
  split at h
  · rename_i hlimit
    rw [if_pos hlimit]
    exact ⟨none, some 250, s.keep, rfl⟩
  · rename_i hlimit
    rw [if_neg hlimit]
    cases hkeep : s.keep with
    | some m => exact ⟨some m, none, none, rfl⟩
    | none =>
      rw [hkeep, Option.isSome_none, if_neg Bool.false_ne_true] at h
      simp only [h]
      exact ⟨none, none, none, by rw [← hkeep]; rfl⟩

/-- The limit as the test leaves it. -/
theorem le_of_not_exceeds {bytes bandwidth : Nat} {timespan : Int} (h : exceeds bytes timespan bandwidth = false)
    (hbytes : 0 < bytes) (hspan : 0 ≤ timespan) : (1000 * bytes : Int) ≤ bandwidth * timespan := by
  unfold exceeds at h
  split at h
  · exact absurd hbytes (of_decide_eq_false h)
  · split at h
    · have := of_decide_eq_false h
      omega
    · omega

/-! ### Runs of calls -/

/-- A stream with the state of the security layer, the last message that was returned, the time of the last call and
the chunks that were read. -/
structure Streaming (δ : Type) where
  sec : δ
  stream : FileStream
  last : Option Bytes
  now : Int
  chunks : List Bytes

def Streaming.start (sec : δ) (stream : FileStream) : Streaming δ := ⟨sec, stream, none, stream.ts, []⟩

inductive Call
  | getMessage
  | keepMessage

/-- A call at a time that is not before that of the last call. The message that is kept is the last one returned. -/
inductive Leads (security : Security δ) : Streaming δ → Call → Streaming δ → Prop
  | returned {st : Streaming δ} {t : Int} {sec : δ} {msg : Option Bytes} {timeout : Option Nat} {stream : FileStream} :
    st.now ≤ t → st.stream.getMessage security st.sec t = .ok (sec, msg, timeout, stream) →
      Leads security st .getMessage ⟨sec, stream, msg <|> st.last, t, st.chunks ++ (st.stream.reads t).toList⟩
  | raised {st : Streaming δ} {t : Int} {sec : δ} {msg : String} {data : Bytes} :
    st.now ≤ t → st.stream.getMessage security st.sec t = .error msg → st.stream.reads t = some data →
      Leads security st .getMessage ⟨sec, st.stream.skipped data, st.last, t, st.chunks ++ [data]⟩
  | kept {st : Streaming δ} {t : Int} {msg : Bytes} : st.now ≤ t → st.last = some msg →
      Leads security st .keepMessage { st with stream := st.stream.keepMessage msg, now := t }

/-- The state of a run of the stream `s`. -/
structure Paced (s : FileStream) (st : Streaming δ) : Prop where
  stream : st.stream = { s with rpos := st.stream.rpos, bytesSent := st.stream.rpos
                                messageId := st.stream.messageId, keep := st.stream.keep }
  since : s.ts ≤ st.now
  limit : (1000 * st.stream.rpos : Int) ≤ s.bandwidth * (st.now - s.ts)
  pieces : st.chunks.flatten = s.content.take st.stream.rpos
  short : ∀ chunk ∈ st.chunks, chunk.length ≤ s.chunksize

namespace Paced
variable {st st' : Streaming δ}

/-- The limit grows with the time. -/
theorem limit_mono {bytes bandwidth : Nat} {ts t t' : Int} (h : (1000 * bytes : Int) ≤ bandwidth * (t - ts))
    (ht : t ≤ t') : (1000 * bytes : Int) ≤ bandwidth * (t' - ts) := by
  have hspan : t - ts ≤ t' - ts := by omega
  exact Int.le_trans h (Int.mul_le_mul_of_nonneg_left hspan (Int.natCast_nonneg bandwidth))

/-- Only the kept message is different. -/
theorem waited (h : Paced s st) {sec : δ} {t : Int} (ht : st.now ≤ t) (last keep : Option Bytes) :
    Paced s ⟨sec, { st.stream with keep }, last, t, st.chunks⟩ := by
  refine ⟨?_, Int.le_trans h.since ht, limit_mono h.limit ht, h.pieces, h.short⟩
  rw [h.stream]

/-- A chunk is read. -/
theorem skipped (h : Paced s st) (hpos : 0 < s.chunksize) {sec : δ} {t : Int} {data : Bytes} (ht : st.now ≤ t)
    (hdata : st.stream.reads t = some data) (last : Option Bytes) :
    Paced s ⟨sec, st.stream.skipped data, last, t, st.chunks ++ [data]⟩ := by
  obtain ⟨hlimit, hread⟩ : exceeds (st.stream.rpos + s.chunksize) (t - s.ts) s.bandwidth = false ∧
      Lua.read s.content st.stream.rpos s.chunksize = some data := by
    have hstream := h.stream
    unfold reads at hdata
    split at hdata
    · cases hdata
    rename_i hlimit
    split at hdata
    · cases hdata
    rw [hstream] at hlimit hdata
    exact ⟨Bool.eq_false_of_not_eq_true hlimit, hdata⟩
  have hlength : data.length ≤ s.chunksize := by
    obtain ⟨-, rfl⟩ := read_eq_some.mp hread
    exact List.length_take_le ..
  have hafter := le_of_not_exceeds hlimit (by omega) (by have := h.since; omega)
  refine ⟨?_, Int.le_trans h.since ht, ?_, ?_, ?_⟩
  · show st.stream.skipped data = { s with
      rpos := st.stream.rpos + data.length, bytesSent := st.stream.rpos + data.length
      messageId := st.stream.messageId + 1, keep := st.stream.keep }
    rw [h.stream]
    rfl
  · show (1000 * (st.stream.rpos + data.length : Nat) : Int) ≤ s.bandwidth * (t - s.ts)
    omega
  · rw [List.flatten_append, List.flatten_singleton, h.pieces]
    exact take_append_read hread
  · intro chunk hchunk
    rcases List.mem_append.mp hchunk with hold | hnew
    · exact h.short chunk hold
    · rw [List.mem_singleton.mp hnew]
      exact hlength

theorem step {call : Call} (h : Paced s st) (hpos : 0 < s.chunksize) (hl : Leads security st call st') :
    Paced s st' := by
  cases hl with
  | @returned t sec msg timeout stream ht hget =>
    cases hreads : st.stream.reads t with
    | none =>
      obtain ⟨msg', timeout', keep, heq⟩ : ∃ msg' timeout' keep, st.stream.getMessage security st.sec t =
        .ok (st.sec, msg', timeout', { st.stream with keep }) := getMessage_of_not_reads st.sec hreads
      rw [heq] at hget
      cases hget
      rw [Option.toList_none, List.append_nil]
      exact h.waited ht _ keep
    | some data =>
      rw [getMessage_of_reads st.sec hreads] at hget
      obtain ⟨r, -, hr⟩ := map_eq_ok.mp hget
      cases hr
      exact h.skipped hpos ht hreads _
  | raised ht hget hdata => exact h.skipped hpos ht hdata _
  | kept ht hlast => exact h.waited ht _ (some _)

end Paced

theorem Paced.start {s : FileStream} (hrpos : s.rpos = 0) (hsent : s.bytesSent = 0) (sec : δ) :
    Paced s (.start sec s) := by
  refine ⟨?_, Int.le_refl _, ?_, ?_, List.forall_mem_nil _⟩
  · cases s
    dsimp only at hrpos hsent
    subst hrpos hsent
    rfl
  · show (1000 * s.rpos : Int) ≤ s.bandwidth * (s.ts - s.ts)
    rw [hrpos, Int.sub_self]
    simp
  · show [] = s.content.take s.rpos
    rw [hrpos, List.take_zero]

/-! ### The chunks as frames -/

/-- A stream of a known version has chunks of at least one byte that fit in a frame. -/
theorem new_eq_ok {version bandwidth : Nat} (hv : 1 ≤ version ∧ version ≤ 5) (hb : 1 ≤ bandwidth) (filename : String)
    (content : Bytes) (sessionId service : Nat) (encryption : Bool) (ts : Int) :
    ∃ s max, new filename (some content) version sessionId service encryption bandwidth ts = .ok s ∧
      maxPayloadSize version = .ok max ∧ 0 < s.chunksize ∧ s.chunksize ≤ max ∧ s.rpos = 0 ∧ s.bytesSent = 0 ∧
      s.content = content ∧ s.ts = ts ∧ s.bandwidth = bandwidth ∧ s.version = version ∧ s.service = service ∧
      s.sessionId = sessionId ∧ s.encryption = encryption := by
  obtain ⟨max, hmax, h8, -⟩ := maxPayloadSize_eq hv
  cases hsize : FRAME_SIZE version with
  | none => simp [maxPayloadSize, getProtocolFrameSize, hsize] at hmax
  | some size =>
    have heq : max = size - PROTOCOL_HEADER_SIZE := by
      simp only [maxPayloadSize, getProtocolFrameSize, hsize] at hmax
      exact (Except.ok.inj hmax).symm
    refine ⟨_, max, by simp only [new, hsize]; rfl, hmax, ?_, ?_, rfl, rfl, rfl, rfl, rfl, rfl, rfl, rfl, rfl⟩
    · dsimp only
      split <;> omega
    · dsimp only
      split <;> omega

theorem hasToBuildBinaryHeader_header (s : FileStream) (messageId : Nat) (data : Bytes) :
    hasToBuildBinaryHeader (s.header messageId data) = false := by
  simp [hasToBuildBinaryHeader, header, isHandshakeBinaryData, isInternalErrorQuery, FRAME_TYPE.CONTROL_FRAME]

theorem compose_header {max : Nat} (hmax : maxPayloadSize s.version = .ok max) (sec : δ) (messageId : Nat)
    (data : Bytes) :
    compose security sec (s.header messageId data) = composeData security sec max (s.header messageId data) := by
  have hbuild : ¬ hasToBuildBinaryHeader (s.header messageId data) = true := by
    rw [hasToBuildBinaryHeader_header]
    exact Bool.false_ne_true
  have hdata : outgoingData (s.header messageId data) = .ok (some data) := if_neg hbuild
  rw [compose_eq_composeData hdata hmax, OutMsg.outgoing, if_neg hbuild]

/-- A chunk within the limit is one frame, if its ids fit in one. -/
theorem compose_header_plain {max : Nat} (hmax : maxPayloadSize s.version = .ok max) (he : s.encryption = false)
    (hservice : s.service < 256) (hsession : s.sessionId < 256) (sec : δ) (messageId : Nat) {data : Bytes}
    (hle : data.length ≤ max) :
    compose security sec (s.header messageId data) =
      .ok (sec, [encodeFrame ((s.header messageId data).frame data)], s.header messageId data) := by
  have hfits : (s.header messageId data).Fits := ⟨show 1 < 8 by decide, hservice, show 0 < 256 by decide, hsession⟩
  rw [compose_header hmax, composeData_single hfits he rfl hmax hle]

/-- In any case no more than one frame is composed. -/
theorem compose_header_one {max : Nat} (hmax : maxPayloadSize s.version = .ok max) {sec sec' : δ} {messageId : Nat}
    {data : Bytes} {frames : List Bytes} {message : OutMsg} (hle : data.length ≤ max)
    (h : compose security sec (s.header messageId data) = .ok (sec', frames, message)) :
    ∃ frame, frames = [frame] := by
  have hfits : ¬ data.length > max := by omega
  rw [compose_header hmax] at h
  simp only [composeData, header, if_neg hfits] at h
  obtain ⟨⟨sec₁, frame, message₁⟩, -, h⟩ := bind_eq_ok.mp h
  cases h
  exact ⟨frame, rfl⟩

/-- What has been read is within the bandwidth at every later time, it was read in consecutive pieces, and each of
them is one frame. The chunk that the next call reads is what its message is composed of, and a call that reads nothing
changes no more than the kept message. -/
structure WithinBandwidth (security : Security δ) (s : FileStream) (max : Nat) (st : Streaming δ) : Prop where
  limit : ∀ t, st.now ≤ t → (1000 * st.stream.rpos : Int) ≤ s.bandwidth * (t - s.ts)
  pieces : st.chunks.flatten = s.content.take st.stream.rpos
  short : ∀ chunk ∈ st.chunks, chunk.length ≤ max
  frame : s.encryption = false → ∀ chunk ∈ st.chunks, ∀ sec messageId,
    (s.service < 256 → s.sessionId < 256 →
      ∃ frame message, compose security sec (s.header messageId chunk) = .ok (sec, [frame], message)) ∧
    ∀ sec' frames message, compose security sec (s.header messageId chunk) = .ok (sec', frames, message) →
      ∃ frame, frames = [frame]
  message : ∀ t sec data, st.stream.reads t = some data → st.stream.getMessage security sec t =
    (compose security sec (s.header (st.stream.messageId + 1) data)).map fun r =>
      (r.1, some r.2.1.flatten, none, st.stream.skipped data)
  waiting : ∀ t sec, st.stream.reads t = none → ∃ msg timeout keep,
    st.stream.getMessage security sec t = .ok (sec, msg, timeout, { st.stream with keep })

theorem Paced.withinBandwidth {max : Nat} {st : Streaming δ} (h : Paced s st)
    (hmax : maxPayloadSize s.version = .ok max)
    (hchunk : s.chunksize ≤ max) : WithinBandwidth security s max st := by
  have hshort : ∀ chunk ∈ st.chunks, chunk.length ≤ max := fun chunk hc => (h.short chunk hc).trans hchunk
  refine ⟨fun t ht => limit_mono h.limit ht, h.pieces, hshort, fun he chunk hc sec messageId => ⟨?_, ?_⟩,
    fun t sec data hreads => ?_, fun t sec hreads => getMessage_of_not_reads sec hreads⟩
  · intro hservice hsession
    exact ⟨_, _, compose_header_plain hmax he hservice hsession sec messageId (hshort chunk hc)⟩
  · intro sec' frames message hcompose
    exact compose_header_one hmax (hshort chunk hc) hcompose
  · have hheader : st.stream.header (st.stream.messageId + 1) data = s.header (st.stream.messageId + 1) data := by
      rw [h.stream]
      rfl
    rw [getMessage_of_reads sec hreads, hheader]

/-- Every sequence of calls on a stream at times that do not decrease stays within the bandwidth. -/
theorem stream_within_bandwidth (security : Security δ) (sec : δ) (filename : String) (content : Bytes)
    {version bandwidth : Nat} (sessionId service : Nat) (encryption : Bool) (ts : Int)
    (hv : 1 ≤ version ∧ version ≤ 5) (hb : 1 ≤ bandwidth) :
    ∃ s max, new filename (some content) version sessionId service encryption bandwidth ts = .ok s ∧
      maxPayloadSize version = .ok max ∧ s.content = content ∧ s.bandwidth = bandwidth ∧ s.ts = ts ∧
      s.service = service ∧ s.sessionId = sessionId ∧ s.encryption = encryption ∧
      ∀ t, Run.Trace (Leads security) (.start sec s) t → ∀ p ∈ t, WithinBandwidth security s max p.2 := by
  obtain ⟨s, max, hnew, hmax, hpos, hchunk, hrpos, hsent, hcontent, hts, hbandwidth, hversion, hids⟩ :=
    new_eq_ok hv hb filename content sessionId service encryption ts
  obtain ⟨hservice, hsession, hencryption⟩ := hids
  refine ⟨s, max, hnew, hmax, hcontent, hbandwidth, hts, hservice, hsession, hencryption, fun t ht p hp => ?_⟩
  have hpaced : Paced s p.2 :=
    ht.invariant (I := Paced s) (fun _ _ _ h hl => h.step hpos hl) (.start hrpos hsent sec) p hp
  exact hpaced.withinBandwidth (by rwa [hversion]) hchunk

/-- Ten bytes at four bytes a second: the first two are read after a second. -/
theorem stream_within_bandwidth_slow :
    ∃ s : FileStream, new "video" (some [0, 1, 2, 3, 4, 5, 6, 7, 8, 9]) 3 1 SERVICE_TYPE.VIDEO false 4 0 = .ok s ∧
      ∃ st : Streaming Unit, Run.Trace (Leads recordSecurity) (.start () s) [(.getMessage, st)] ∧ st.chunks = [[0, 1]] ∧
        WithinBandwidth recordSecurity s 131072 st := by
  obtain ⟨s, max, hnew, hmax, -, -, -, -, -, -, hrun⟩ := stream_within_bandwidth recordSecurity () "video"
    [0, 1, 2, 3, 4, 5, 6, 7, 8, 9] 1 SERVICE_TYPE.VIDEO false 0 (by decide : 1 ≤ 3 ∧ 3 ≤ 5) (by decide : 1 ≤ 4)
  cases hnew
  cases hmax
  refine ⟨_, rfl, _, .cons (.returned (t := 1000) (by decide) rfl) .nil, rfl, ?_⟩
  exact hrun _ (.cons (.returned (t := 1000) (by decide) rfl) .nil) _ (List.mem_singleton.mpr rfl)

end FileStream

end Atf
