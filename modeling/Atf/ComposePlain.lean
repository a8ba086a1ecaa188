import Atf.FrameSize
import Atf.RoundTrip

/-!
# Unencrypted messages on the wire

`Compose` of an unencrypted message is a function of its data and ids alone. Data within the payload limit goes in
one frame (`composeData_single`). Longer data goes in a first frame, which announces the length and the number of
frames, and in as many frames as it has pieces of the limit (`dataFrames_eq`): the number in the header counts from
1 to 255 and again from 1, so that 0 is left for the last frame.
-/

namespace Atf
open Lua

variable {δ : Type} {security : Security δ} {sec : δ} {m : OutMsg} {data : Bytes} {max : Nat}

/-! ### The message that is cut -/

/-- The table when it is cut into frames: `rpcPayload` has defaulted the payload, and the data is in `binaryData`. -/
def OutMsg.outgoing (m : OutMsg) (data : Option Bytes) : OutMsg :=
  if hasToBuildBinaryHeader m then { m with payload := some (m.payload.getD []), binaryData := data } else m

theorem compose_eq_composeData {data : Option Bytes} (hdata : outgoingData m = .ok data)
    (hmax : maxPayloadSize m.version = .ok max) :
    compose security sec m = composeData security sec max (m.outgoing data) := by
  unfold outgoingData at hdata
  rw [compose, hmax, OutMsg.outgoing]
  split at hdata
  · rename_i hbuild
    obtain ⟨bytes, hbytes, rfl⟩ := map_eq_ok.mp hdata
    simp only [if_pos hbuild, hbytes]
    rfl
  · rename_i hbuild
    simp only [if_neg hbuild]
    rfl

theorem outgoing_binaryData {data : Option Bytes} (hdata : outgoingData m = .ok data) :
    (m.outgoing data).binaryData = data := by
  unfold outgoingData at hdata
  unfold OutMsg.outgoing
  split at hdata
  · rename_i hbuild
    rw [if_pos hbuild]
  · rename_i hbuild
    cases hdata
    rw [if_neg hbuild]

/-- The ids are those of the message. -/
theorem outgoing_ids (m : OutMsg) (data : Option Bytes) :
    (m.outgoing data).version = m.version ∧ (m.outgoing data).encryption = m.encryption ∧
      (m.outgoing data).frameType = m.frameType ∧ (m.outgoing data).serviceType = m.serviceType ∧
      (m.outgoing data).frameInfo = m.frameInfo ∧ (m.outgoing data).sessionId = m.sessionId ∧
      (m.outgoing data).messageId = m.messageId := by
  unfold OutMsg.outgoing
  split <;> exact ⟨rfl, rfl, rfl, rfl, rfl, rfl, rfl⟩

/-! ### One frame -/

theorem composeData_single (hfits : m.Fits) (he : m.encryption = false) (hd : m.binaryData = some data)
    (hmax : maxPayloadSize m.version = .ok max) (hle : data.length ≤ max) :
    composeData security sec max m = .ok (sec, [encodeFrame (m.frame data)], m) := by
  have hfits' : ¬ data.length > max := by omega
  simp only [composeData, hd, if_neg hfits']
  rw [getBinaryFrame_plain security hfits he hd hmax hle]
  rfl

/-! ### Many frames -/

/-- The number of pieces of the limit. -/
def countOfFrames (max : Nat) (data : Bytes) : Nat := (data.length + max - 1) / max

/-- The piece of the data that frame `i` carries, where the first frame of data is frame 0. -/
def dataPart (max : Nat) (data : Bytes) (i : Nat) : Bytes := (data.drop (i * max)).take max

/-- The number in the header of frame `i`. -/
def frameNumber (max : Nat) (data : Bytes) (i : Nat) : Nat := if i + 1 < countOfFrames max data then i % 255 + 1 else 0

def firstFrameOf (m : OutMsg) (max : Nat) (data : Bytes) : Header × Bytes :=
  let payload := be32 data.length ++ be32 (countOfFrames max data)
  (firstFrameMessage m payload).frame payload

def dataFrameOf (m : OutMsg) (max : Nat) (data : Bytes) (i : Nat) : Header × Bytes :=
  (consecutiveFrameMessage m (frameNumber max data i) (dataPart max data i)).frame (dataPart max data i)

theorem countOfFrames_drop (h0 : 0 < max) (hpos : 0 < data.length) :
    countOfFrames max data = countOfFrames max (data.drop max) + 1 := by
  unfold countOfFrames
  rw [List.length_drop]
  by_cases hle : data.length ≤ max
  · have hone : (data.length + max - 1) / max = 1 := by
      rw [Nat.div_eq_iff h0]
      omega
    have hzero : (data.length - max + max - 1) / max = 0 := Nat.div_eq_of_lt (by omega)
    rw [hone, hzero]
  · rw [← Nat.add_div_right _ h0]
    congr 1
    omega

theorem countOfFrames_eq_zero (h0 : 0 < max) (hnil : data = []) : countOfFrames max data = 0 := by
  subst hnil
  exact Nat.div_eq_of_lt (by simp; omega)

theorem dataPart_zero : dataPart max data 0 = data.take max := by
  rw [dataPart, Nat.zero_mul, List.drop_zero]

theorem dataPart_drop (i : Nat) : dataPart max (data.drop max) i = dataPart max data (i + 1) := by
  rw [dataPart, dataPart, List.drop_drop, Nat.add_one_mul, Nat.add_comm]

/-- The frames of data are the pieces in order. -/
theorem dataFrames_eq (m : OutMsg) (h0 : 0 < max) {fuel : Nat} (count : Nat) (hfuel : data.length ≤ fuel) :
    dataFrames m max fuel count data = (List.range (countOfFrames max data)).map fun i =>
      (consecutiveFrameMessage m (if i + 1 < countOfFrames max data then (count + i) % 255 + 1 else 0)
        (dataPart max data i)).frame (dataPart max data i) := by
  induction fuel generalizing count data with
  | zero =>
    have hnil : data = [] := List.length_eq_zero_iff.mp (by omega)
    rw [countOfFrames_eq_zero h0 hnil]
    rfl
  | succ fuel ih =>
    unfold dataFrames
    split
    · rename_i hpos
      have hcount := countOfFrames_drop h0 hpos
      have hmore : (data.drop max).length > 0 ↔ 0 < countOfFrames max (data.drop max) := by
        rw [countOfFrames, Nat.div_pos_iff]
        omega
      rw [ih (count + 1) (by rw [List.length_drop]; omega), hcount, List.range_succ_eq_map, List.map_cons,
        List.map_map]
      congr 1
      · simp only [dataPart_zero, hmore, Nat.zero_add, Nat.add_zero, Nat.lt_add_left_iff_pos]
      · refine List.map_congr_left fun i _ => ?_
        rw [Function.comp_apply, dataPart_drop, Nat.succ_eq_add_one, Nat.add_assoc count 1 i, Nat.add_comm 1 i]
        simp only [Nat.add_lt_add_iff_right]
    · rename_i hzero
      rw [countOfFrames_eq_zero h0 (List.length_eq_zero_iff.mp (by omega))]
      rfl

theorem composeData_fragmented (he : m.encryption = false) (hs : m.serviceType < 256) (hid : m.sessionId < 256)
    (hd : m.binaryData = some data) (hmax : maxPayloadSize m.version = .ok max) (h8 : 8 ≤ max)
    (hlt : max < data.length) :
    composeData security sec max m = .ok (sec,
      (firstFrameOf m max data :: (List.range (countOfFrames max data)).map (dataFrameOf m max data)).map encodeFrame,
      { m with binaryData := some [] }) := by
  have hframes : dataFrames m max data.length 0 data =
      (List.range (countOfFrames max data)).map (dataFrameOf m max data) := by
    rw [dataFrames_eq m (by omega) 0 (Nat.le_refl _)]
    simp only [Nat.zero_add]
    rfl
  simp only [composeData, hd, if_pos hlt]
  rw [consecutiveFrames_plain security hs hid he hmax, hframes]
  simp only [bind, Except.bind, int32ToBytes_eq, be32_norm, Nat.zero_add, List.length_map, List.length_range]
  rw [getBinaryFrame_plain security (firstFrameMessage_fits hs hid _) rfl rfl hmax (by simpa using h8)]
  rfl

/-! ### The wire format -/

theorem length_dataPart (i : Nat) : (dataPart max data i).length = min max (data.length - i * max) := by
  rw [dataPart, List.length_take, List.length_drop]

/-- Before the last piece there is more than a piece of data. -/
theorem lt_countOfFrames_iff (h0 : 0 < max) (i : Nat) : i < countOfFrames max data ↔ i * max < data.length := by
  rw [countOfFrames, Nat.lt_iff_add_one_le, Nat.le_div_iff_mul_le h0, Nat.add_one_mul]
  omega

theorem flatten_dataPart (n : Nat) : ((List.range n).map (dataPart max data)).flatten = data.take (n * max) := by
  induction n with
  | zero => simp
  | succ n ih =>
    rw [List.range_succ, List.map_append, List.flatten_append, ih, List.map_singleton, List.flatten_singleton,
      Nat.add_one_mul]
    exact List.take_add.symm

theorem flatten_dataParts (h0 : 0 < max) :
    ((List.range (countOfFrames max data)).map (dataPart max data)).flatten = data := by
  rw [flatten_dataPart]
  refine List.take_of_length_le ?_
  have hend : ¬ countOfFrames max data < countOfFrames max data := Nat.lt_irrefl _
  rw [lt_countOfFrames_iff h0] at hend
  omega

/-- Data that does not fit one frame is sent as a first frame with its length and the number of frames, and as that
many frames of the limit but for the last, which alone has number 0. -/
theorem compose_wire_format (security : Security δ) (sec : δ) (he : m.encryption = false)
    (hv : 1 ≤ m.version ∧ m.version ≤ 5) (hs : m.serviceType < 256) (hid : m.sessionId < 256)
    (hdata : outgoingData m = .ok (some data)) (hmax : maxPayloadSize m.version = .ok max)
    (hlt : max < data.length) :
    ∃ (first : Header × Bytes) (frames : List (Header × Bytes)) (message' : OutMsg),
      compose security sec m = .ok (sec, (first :: frames).map encodeFrame, message') ∧
      first = ({ version := m.version, encryption := false, frameType := FRAME_TYPE.FIRST_FRAME
                 serviceType := m.serviceType, frameInfo := 0, sessionId := m.sessionId, size := 8
                 messageId := Bit32.norm m.messageId },
        be32 data.length ++ be32 (countOfFrames max data)) ∧
      frames.length = countOfFrames max data ∧
      (∀ i f, frames[i]? = some f →
        f.1 = { version := m.version, encryption := false, frameType := FRAME_TYPE.CONSECUTIVE_FRAME
                serviceType := m.serviceType
                frameInfo := if i + 1 < countOfFrames max data then i % 255 + 1 else 0
                sessionId := m.sessionId, size := f.2.length, messageId := Bit32.norm m.messageId } ∧
        (i + 1 < countOfFrames max data → f.2.length = max) ∧ 1 ≤ f.2.length ∧ f.2.length ≤ max) ∧
      (frames.map Prod.snd).flatten = data := by
  obtain ⟨max', hmax', h8, -⟩ := maxPayloadSize_eq hv
  obtain rfl : max = max' := Except.ok.inj (hmax.symm.trans hmax')
  have h0 : 0 < max := by omega
  obtain ⟨hversion, hencryption, -, hservice, -, hsession, hmessage⟩ := outgoing_ids m (some data)
  have hcompose : compose security sec m = composeData security sec max (m.outgoing (some data)) :=
    compose_eq_composeData hdata hmax
  rw [composeData_fragmented (hencryption.trans he) (by rwa [hservice]) (by rwa [hsession]) (outgoing_binaryData hdata)
    (by rwa [hversion]) h8 hlt] at hcompose
  refine ⟨_, _, _, hcompose, ?_, by rw [List.length_map, List.length_range], fun i f hf => ?_, ?_⟩
  · simp only [firstFrameOf, OutMsg.frame, firstFrameMessage, hversion, hservice, hsession, hmessage]
    rfl
  · rw [List.getElem?_map, Option.map_eq_some_iff] at hf
    obtain ⟨j, hj, rfl⟩ := hf
    obtain ⟨hi, rfl⟩ := List.getElem?_eq_some_iff.mp hj
    rw [List.length_range] at hi
    rw [List.getElem_range]
    have hpart : (dataPart max data i).length = min max (data.length - i * max) := length_dataPart i
    have hlast := (lt_countOfFrames_iff h0 i).mp hi
    refine ⟨?_, fun hmore => ?_, ?_, ?_⟩
    · simp only [dataFrameOf, frameNumber, OutMsg.frame, consecutiveFrameMessage, hversion, hencryption, he, hservice,
        hsession, hmessage]
    · have hnext := (lt_countOfFrames_iff h0 (i + 1)).mp hmore
      rw [Nat.add_one_mul] at hnext
      show (dataPart max data i).length = max
      omega
    · show 1 ≤ (dataPart max data i).length
      omega
    · show (dataPart max data i).length ≤ max
      omega
  · rw [List.map_map]
    exact flatten_dataParts h0

def plainVideo (data : Bytes) : OutMsg := { videoMessage data with encryption := false }

/-- Data of the video service, one byte longer than a frame of protocol version 2 can carry. -/
theorem compose_wire_format_video :
    ∃ (first : Header × Bytes) (frames : List (Header × Bytes)) (message' : OutMsg),
      compose recordSecurity () (plainVideo (List.replicate 1489 0)) =
          .ok ((), (first :: frames).map encodeFrame, message') ∧
        first.2 = be32 1489 ++ be32 2 ∧ frames.length = 2 ∧
        (frames.map Prod.snd).flatten = List.replicate 1489 0 := by
  have hlength : (List.replicate 1489 (0 : UInt8)).length = 1489 := List.length_replicate
  have hcount : countOfFrames 1488 (List.replicate 1489 (0 : UInt8)) = 2 := by rw [countOfFrames, hlength]
  have hmax : maxPayloadSize (plainVideo (List.replicate 1489 0)).version = .ok 1488 := rfl
  obtain ⟨first, frames, message', hcompose, hfirst, hframes, -, hdata⟩ :=
    compose_wire_format recordSecurity () rfl (by decide) (by decide) (by decide) rfl hmax (by rw [hlength]; decide)
  rw [hlength, hcount] at hfirst
  exact ⟨first, frames, message', hcompose, congrArg Prod.snd hfirst, hframes.trans hcount, hdata⟩

end Atf
