import Atf.ComposePlain

/-!
# Sending a message table again

`MobileSession:Send` returns the table it was given, and `Compose` has written into it: data that was cut into frames
is gone, and the binary header that was built for an RPC is left in `binaryData` with the data behind it. To compose
the table again builds a second header in front of what is there. So the frames are the same again only where
nothing was written, or where what was written is what a fresh table has (`compose_again_iff`).
-/

namespace Atf
open Lua

variable {δ : Type} {security : Security δ} {sec : δ} {m : OutMsg} {max : Nat}

/-! ### The frames of a message and the table it leaves -/

/-- The frames of an unencrypted message with this data. -/
def framesOf (m : OutMsg) (max : Nat) (data : Bytes) : List (Header × Bytes) :=
  if data.length ≤ max then [m.frame data]
  else firstFrameOf m max data :: (List.range (countOfFrames max data)).map (dataFrameOf m max data)

/-- What is left in `binaryData`. -/
def leftData (max : Nat) (data : Bytes) : Bytes := if data.length ≤ max then data else []

theorem getBinaryFrame_none (he : m.encryption = false) (hd : m.binaryData = none)
    (hmax : maxPayloadSize m.version = .ok max) :
    getBinaryFrame security sec m = getBinaryFrame security sec { m with binaryData := some [] } := by
  have hfits : ¬ ([] : Bytes).length > max := Nat.not_lt_zero _
  have hplain : encryptPayload security sec [] { m with binaryData := some [] } = .ok (sec, []) :=
    encryptPayload_plain security he sec []
  simp only [getBinaryFrame, hmax, hd, if_neg hfits, hplain, bind, Except.bind]

theorem composeData_plain (hfits : m.Fits) (he : m.encryption = false) (hmax : maxPayloadSize m.version = .ok max)
    (h8 : 8 ≤ max) :
    composeData security sec max m = .ok (sec, (framesOf m max (m.binaryData.getD [])).map encodeFrame,
      { m with binaryData := some (leftData max (m.binaryData.getD [])) }) := by
  cases hd : m.binaryData with
  | none =>
    have hempty : ({ m with binaryData := some [] } : OutMsg).Fits :=
      ⟨hfits.frameType, hfits.serviceType, hfits.frameInfo, hfits.sessionId⟩
    have hle : ([] : Bytes).length ≤ max := Nat.zero_le _
    rw [Option.getD_none, framesOf, leftData, if_pos hle, if_pos hle]
    simp only [composeData, hd]
    rw [getBinaryFrame_none he hd hmax, getBinaryFrame_plain security hempty he rfl hmax (Nat.zero_le _)]
    rfl
  | some data =>
    rw [Option.getD_some, framesOf, leftData]
    split
    · rename_i hle
      rw [composeData_single hfits he hd hmax hle, ← hd]
      rfl
    · rename_i hgt
      exact composeData_fragmented he hfits.serviceType hfits.sessionId hd hmax h8 (by omega)

/-- The same ids in the header, but for the message id. -/
structure SameIds (m m' : OutMsg) : Prop where
  version : m'.version = m.version
  encryption : m'.encryption = m.encryption
  frameType : m'.frameType = m.frameType
  serviceType : m'.serviceType = m.serviceType
  frameInfo : m'.frameInfo = m.frameInfo
  sessionId : m'.sessionId = m.sessionId

namespace SameIds
variable {m' m'' : OutMsg}

theorem symm (h : SameIds m m') : SameIds m' m :=
  ⟨h.version.symm, h.encryption.symm, h.frameType.symm, h.serviceType.symm, h.frameInfo.symm, h.sessionId.symm⟩

theorem trans (h : SameIds m m') (h' : SameIds m' m'') : SameIds m m'' :=
  ⟨h'.version.trans h.version, h'.encryption.trans h.encryption, h'.frameType.trans h.frameType,
    h'.serviceType.trans h.serviceType, h'.frameInfo.trans h.frameInfo, h'.sessionId.trans h.sessionId⟩

theorem fits (h : SameIds m m') (hfits : m.Fits) : m'.Fits :=
  ⟨h.frameType ▸ hfits.frameType, h.serviceType ▸ hfits.serviceType, h.frameInfo ▸ hfits.frameInfo,
    h.sessionId ▸ hfits.sessionId⟩

theorem outgoing (m : OutMsg) (data : Option Bytes) : SameIds m (m.outgoing data) := by
  obtain ⟨hversion, hencryption, htype, hservice, hinfo, hsession, -⟩ := outgoing_ids m data
  exact ⟨hversion, hencryption, htype, hservice, hinfo, hsession⟩

end SameIds

theorem compose_plain {data : Option Bytes} (hfits : m.Fits) (he : m.encryption = false)
    (hmax : maxPayloadSize m.version = .ok max) (h8 : 8 ≤ max) (hdata : outgoingData m = .ok data) :
    compose security sec m = .ok (sec, (framesOf (m.outgoing data) max (data.getD [])).map encodeFrame,
      { m.outgoing data with binaryData := some (leftData max (data.getD [])) }) := by
  have hids := SameIds.outgoing m data
  rw [compose_eq_composeData hdata hmax, composeData_plain (hids.fits hfits) (hids.encryption.trans he)
    (by rwa [hids.version]) h8, outgoing_binaryData hdata]

/-! ### Frames up to the message id -/

/-- The bytes of a frame without those of the message id. -/
def withoutMessageId (frame : Bytes) : Bytes := frame.take 8 ++ frame.drop 12

/-- The frames are the same but for the message id. -/
def SameFrames (frames frames' : List Bytes) : Prop := frames.map withoutMessageId = frames'.map withoutMessageId

theorem withoutMessageId_encodeFrame (f : Header × Bytes) :
    withoutMessageId (encodeFrame f) =
      [UInt8.ofNat (firstByte f.1), UInt8.ofNat f.1.serviceType, UInt8.ofNat f.1.frameInfo,
        UInt8.ofNat f.1.sessionId] ++ be32 f.1.size ++ f.2 := rfl

theorem framesOf_sameIds {m m' : OutMsg} (h : SameIds m m') (data : Bytes) :
    SameFrames ((framesOf m max data).map encodeFrame) ((framesOf m' max data).map encodeFrame) := by
  have hframe : withoutMessageId (encodeFrame (m.frame data)) = withoutMessageId (encodeFrame (m'.frame data)) := by
    simp only [withoutMessageId_encodeFrame, OutMsg.frame, firstByte, h.version, h.encryption, h.frameType,
      h.serviceType, h.frameInfo, h.sessionId]
  have hfirst : withoutMessageId (encodeFrame (firstFrameOf m max data)) =
      withoutMessageId (encodeFrame (firstFrameOf m' max data)) := by
    simp only [withoutMessageId_encodeFrame, firstFrameOf, firstFrameMessage, OutMsg.frame, firstByte, h.version,
      h.serviceType, h.sessionId]
  have hnext (i : Nat) : withoutMessageId (encodeFrame (dataFrameOf m max data i)) =
      withoutMessageId (encodeFrame (dataFrameOf m' max data i)) := by
    simp only [withoutMessageId_encodeFrame, dataFrameOf, consecutiveFrameMessage, OutMsg.frame, firstByte, h.version,
      h.encryption, h.serviceType, h.sessionId]
  unfold SameFrames framesOf
  split
  · simp only [List.map_cons, List.map_nil, hframe]
  · simp only [List.map_cons, List.map_map, hfirst]
    congr 1
    exact List.map_congr_left fun i _ => hnext i

/-- The data of the frames tells the data of the message. -/
theorem data_eq_of_framesOf (m m' : OutMsg) {data data' : Bytes} (h0 : 0 < max)
    (h : (framesOf m max data).map Prod.snd = (framesOf m' max data').map Prod.snd) : data = data' := by
  have hflat (m : OutMsg) (data : Bytes) :
      (((List.range (countOfFrames max data)).map (dataFrameOf m max data)).map Prod.snd).flatten = data := by
    rw [List.map_map]
    exact flatten_dataParts h0
  have hmany {data : Bytes} (hgt : ¬ data.length ≤ max) : 0 < countOfFrames max data := by
    rw [lt_countOfFrames_iff h0]
    omega
  unfold framesOf at h
  split at h
  · split at h
    · exact (List.cons.inj h).1
    · rename_i hgt
      have hlength := congrArg List.length h
      simp only [List.map_cons, List.map_nil, List.length_cons, List.length_map, List.length_range,
        List.length_nil] at hlength
      have := hmany hgt
      omega
  · rename_i hgt
    split at h
    · have hlength := congrArg List.length h
      simp only [List.map_cons, List.map_nil, List.length_cons, List.length_map, List.length_range,
        List.length_nil] at hlength
      have := hmany hgt
      omega
    · have htail := (List.cons.inj h).2
      rw [← hflat m data, htail, hflat]

/-- Tables with the same ids have the same frames exactly if they have the same data. -/
theorem sameFrames_iff {m m' : OutMsg} {data data' : Bytes} (h0 : 0 < max) (hids : SameIds m m') :
    SameFrames ((framesOf m max data).map encodeFrame) ((framesOf m' max data').map encodeFrame) ↔ data = data' := by
  constructor
  · intro h
    refine data_eq_of_framesOf m m' h0 ?_
    have hdrop := congrArg (List.map (List.drop 8)) h
    simp only [List.map_map] at hdrop
    exact hdrop
  · rintro rfl
    exact framesOf_sameIds hids data

/-! ### Composing twice -/

/-- `rpcPayload` is a header of 12 bytes, which depends on neither the message id nor the data behind the payload. -/
theorem rpcPayload_cases {P : Bytes} (h : rpcPayload m = .ok P) :
    ∃ header : Bytes, header.length = BINARY_HEADER_SIZE ∧
      P = header ++ m.payload.getD [] ++ m.binaryData.getD [] ∧
      ∀ (k : Nat) (data : Bytes),
        rpcPayload { m with payload := some (m.payload.getD []), binaryData := some data, messageId := k } =
          .ok (header ++ m.payload.getD [] ++ data) := by
  obtain ⟨rpcType, htype, h⟩ := bind_eq_ok.mp h
  obtain ⟨rpcFunctionId, hid, h⟩ := bind_eq_ok.mp h
  obtain ⟨res, hres, h⟩ := bind_eq_ok.mp h
  obtain ⟨correlationId, hcorrelation, h⟩ := bind_eq_ok.mp h
  obtain ⟨jsonSize, hsize, h⟩ := bind_eq_ok.mp h
  cases h
  refine ⟨res ++ correlationId ++ jsonSize, ?_, by simp only [List.append_assoc], fun k data => ?_⟩
  · rw [int32ToBytes_eq] at hcorrelation hsize
    cases hcorrelation
    cases hsize
    rw [List.length_append, List.length_append, length_of_char hres, length_be32, length_be32]
    rfl
  · simp only [rpcPayload, htype, hid, hres, hcorrelation, Option.getD_some, hsize, bind, Except.bind]
    rfl

theorem hasToBuildBinaryHeader_again (m : OutMsg) (k : Nat) (data data' : Option Bytes) :
    hasToBuildBinaryHeader { m.outgoing data with binaryData := data', messageId := k } = hasToBuildBinaryHeader m := by
  unfold OutMsg.outgoing
  split
  · rename_i hbuild
    cases hp : m.payload with
    | some payload => simp only [hasToBuildBinaryHeader, hp, Option.isSome_some]
    | none =>
      -- only a handshake or an internal error has a binary header without a payload
      simp only [hasToBuildBinaryHeader, hp, Option.isSome_none, Bool.false_eq_true, if_false] at hbuild ⊢
      split
      · rfl
      · rename_i hcontrol
        rw [if_neg hcontrol] at hbuild
        split
        · rfl
        · rename_i hquery
          rw [if_neg hquery] at hbuild
          cases hbuild
  · rfl

/-- The table is as good as new: nothing was written, or a fresh table has nothing in that place. -/
def SendsAgain (max : Nat) (m : OutMsg) : Prop :=
  if hasToBuildBinaryHeader m then
    m.binaryData.getD [] = [] ∧ max < BINARY_HEADER_SIZE + (m.payload.getD []).length
  else (m.binaryData.getD []).length ≤ max

/-- The table that is composed again, with the message id of the second time. -/
def OutMsg.again (m : OutMsg) (max : Nat) (data : Option Bytes) (k : Nat) : OutMsg :=
  { m.outgoing data with binaryData := some (leftData max (data.getD [])), messageId := k }

theorem leftData_eq_self_iff {data : Bytes} : leftData max data = data ↔ data.length ≤ max := by
  unfold leftData
  split
  · rename_i hle
    exact iff_of_true rfl hle
  · rename_i hgt
    refine iff_of_false (fun hnil => hgt ?_) hgt
    rw [← hnil]
    exact Nat.zero_le _

/-- The data of the second time, which is that of the first exactly if the table is as good as new. -/
theorem outgoingData_again {data : Option Bytes} (hdata : outgoingData m = .ok data) (k : Nat) :
    ∃ data', outgoingData (m.again max data k) = .ok data' ∧ (data.getD [] = data'.getD [] ↔ SendsAgain max m) := by
  unfold outgoingData OutMsg.again
  rw [hasToBuildBinaryHeader_again]
  unfold outgoingData at hdata
  unfold SendsAgain
  split at hdata
  · rename_i hbuild
    obtain ⟨P, hP, rfl⟩ := map_eq_ok.mp hdata
    obtain ⟨header, hlength, rfl, hagain⟩ := rpcPayload_cases hP
    rw [if_pos hbuild, if_pos hbuild, OutMsg.outgoing, if_pos hbuild]
    refine ⟨_, map_eq_ok.mpr ⟨_, hagain k _, rfl⟩, ?_⟩
    rw [Option.getD_some, Option.getD_some, List.append_cancel_left_eq]
    unfold leftData
    simp only [List.length_append, hlength]
    split
    · rename_i hle
      -- the header is found a second time
      refine iff_of_false (fun heq => ?_) (fun hagain => ?_)
      · have hlengths := congrArg List.length heq
        simp only [List.length_append, hlength, BINARY_HEADER_SIZE] at hlengths
        omega
      · have hnil := congrArg List.length hagain.1
        rw [List.length_nil] at hnil
        omega
    · rename_i hgt
      refine ⟨fun hnil => ⟨hnil, ?_⟩, fun hagain => hagain.1⟩
      rw [hnil, List.length_nil] at hgt
      omega
  · rename_i hbuild
    cases hdata
    rw [if_neg hbuild, if_neg hbuild]
    refine ⟨_, rfl, ?_⟩
    rw [Option.getD_some, eq_comm]
    exact leftData_eq_self_iff

/-- An unencrypted table that is composed again gives the same frames but for the message id exactly if it has no
binary header and its data fits one frame, or has one and no binary data and its payload fills more than a frame. -/
theorem compose_again_iff (security : Security δ) (sec : δ) {data : Option Bytes} (hfits : m.Fits)
    (he : m.encryption = false) (hv : 1 ≤ m.version ∧ m.version ≤ 5) (hdata : outgoingData m = .ok data)
    (hmax : maxPayloadSize m.version = .ok max) (k : Nat) :
    ∃ frames message frames' message', compose security sec m = .ok (sec, frames, message) ∧
      compose security sec { message with messageId := k } = .ok (sec, frames', message') ∧
      (SameFrames frames frames' ↔ SendsAgain max m) := by
  obtain ⟨max', hmax', h8, -⟩ := maxPayloadSize_eq hv
  obtain rfl : max = max' := Except.ok.inj (hmax.symm.trans hmax')
  obtain ⟨data', hdata', hiff⟩ : ∃ data', outgoingData (m.again max data k) = .ok data' ∧
    (data.getD [] = data'.getD [] ↔ SendsAgain max m) := outgoingData_again hdata k
  have hout := SameIds.outgoing m data
  have hids : SameIds m (m.again max data k) :=
    ⟨hout.version, hout.encryption, hout.frameType, hout.serviceType, hout.frameInfo, hout.sessionId⟩
  have hlimit : maxPayloadSize (m.again max data k).version = .ok max := by rwa [hids.version]
  refine ⟨_, _, _, _, compose_plain hfits he hmax h8 hdata,
    compose_plain (hids.fits hfits) (hids.encryption.trans he) hlimit h8 hdata', ?_⟩
  rw [← hiff]
  exact sameFrames_iff (by omega) (hout.symm.trans (hids.trans (.outgoing _ data')))

/-- A request with a payload and no binary data, in protocol version 2. -/
def request (payload : Bytes) : OutMsg :=
  { version := 2, encryption := false, frameType := FRAME_TYPE.SINGLE_FRAME, serviceType := SERVICE_TYPE.RPC
    frameInfo := 0, sessionId := 1, messageId := 1, rpcType := some 0, rpcFunctionId := some 1
    rpcCorrelationId := some 5, payload := some payload, binaryData := none }

theorem compose_again_video : ∃ frames message frames' message',
    compose recordSecurity () (plainVideo [1, 2, 3]) = .ok ((), frames, message) ∧
      compose recordSecurity () { message with messageId := 2 } = .ok ((), frames', message') ∧
      SameFrames frames frames' := by
  have hfits : (plainVideo [1, 2, 3]).Fits := ⟨by decide, by decide, by decide, by decide⟩
  obtain ⟨frames, message, frames', message', h, h', hiff⟩ :=
    compose_again_iff recordSecurity () hfits rfl (by decide) rfl rfl 2
  exact ⟨frames, message, frames', message', h, h', hiff.mpr (show 3 ≤ 1488 by decide)⟩

/-- The second frame has the header of the RPC twice, and the payload twice. -/
theorem compose_again_request : ∃ frames message frames' message',
    compose recordSecurity () (request [123, 125]) = .ok ((), frames, message) ∧
      compose recordSecurity () { message with messageId := 2 } = .ok ((), frames', message') ∧
      frames.map List.length = [26] ∧ frames'.map List.length = [40] ∧ ¬ SameFrames frames frames' := by
  refine ⟨_, _, _, _, rfl, rfl, rfl, rfl, ?_⟩
  unfold SameFrames
  decide +kernel

end Atf
