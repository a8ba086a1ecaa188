import Atf.ComposeFrames

/-!
# `Parse` undoes `Compose`

`Compose` packs the RPC type and function id in one word, puts the binary header, the JSON text and
the binary data one after the other and sends them in one frame or, above the limit of the protocol
version, in several. Both ways `Parse` ends at `parseData` of the same data, with a size field that is
the length of the data or, for a fragmented message, 8 more (the size of the first frame is counted
too). `parseBinaryHeader` only asks whether there is binary data, so it reads the same message from
both.
-/

namespace Atf
open Lua

variable {δ J : Type}

/-! ### The binary header -/

/-- The data of an RPC message: its binary header, its JSON text and its binary data. -/
def rpcData (rpcType rpcFunctionId : Nat) (rpcCorrelationId : Int) (text binaryData : Bytes) : Bytes :=
  be32 (rpcType * 2 ^ 28 + rpcFunctionId) ++ be32 (Bit32.norm rpcCorrelationId) ++ be32 text.length ++
    text ++ binaryData

theorem rpcPayload_eq {m : OutMsg} {rpcType rpcFunctionId : Nat} {c : Int} (ht : rpcType < 16)
    (hf : rpcFunctionId < 2 ^ 28) (hc : c < 2 ^ 31) (hmt : m.rpcType = some rpcType)
    (hmf : m.rpcFunctionId = some rpcFunctionId) (hmc : m.rpcCorrelationId = some c) :
    rpcPayload m = .ok (rpcData rpcType rpcFunctionId c (m.payload.getD []) (m.binaryData.getD [])) := by
  have hn : Bit32.norm rpcFunctionId = rpcFunctionId := Bit32.norm_of_lt (by omega)
  have h0 : Bit32.band rpcFunctionId 0xff = rpcFunctionId % 2 ^ 8 :=
    (Bit32.band_mask _ 8 (by decide)).trans (by rw [hn])
  have h1 : Bit32.rshift (Bit32.band rpcFunctionId 0xff00) 8 = rpcFunctionId / 2 ^ 8 % 256 :=
    (Bit32.rshift_band_byte _ 1 (by decide)).trans (by rw [hn])
  have h2 : Bit32.rshift (Bit32.band rpcFunctionId 0xff0000) 16 = rpcFunctionId / 2 ^ 16 % 256 :=
    (Bit32.rshift_band_byte _ 2 (by decide)).trans (by rw [hn])
  have h3 : Bit32.band (Bit32.rshift rpcFunctionId 24) 0x0f = rpcFunctionId / 2 ^ 24 := by
    have hr : Bit32.rshift rpcFunctionId 24 = rpcFunctionId / 2 ^ 24 := by
      rw [Bit32.rshift, hn, Nat.shiftRight_eq_div_pow]
    have hb := Bit32.band_mask (Bit32.rshift rpcFunctionId 24 : Nat) 4 (by decide)
    rw [hr, Bit32.norm_of_lt (by omega)] at hb
    rw [hr]
    exact hb.trans (Nat.mod_eq_of_lt (by omega))
  have h4 : Bit32.lshift rpcType 4 = rpcType * 16 := by
    rw [Bit32.lshift, Bit32.norm_of_lt (by omega), Nat.shiftLeft_eq]
    omega
  have hu : uint32ToInt32 c = c := by simp only [uint32ToInt32, ge_iff_le, ite_eq_right_iff]; omega
  unfold rpcPayload
  rw [hmt, hmf, hmc]
  simp only [number_some, Option.getD_some, hu, int32ToBytes_eq, h0, h1, h2, h3, h4, bind, Except.bind, pure,
    Except.pure]
  rw [char_of_lt (by intro n hn; simp only [List.mem_cons, List.not_mem_nil, or_false] at hn; omega)]
  simp only [rpcData, be32_norm]
  congr 5
  simp only [be32, List.map_cons, List.map_nil, List.cons.injEq, ← UInt8.toNat_inj, UInt8.toNat_ofNat',
    and_true]
  omega

theorem uint32ToInt32_norm {c : Int} (h1 : -2 ^ 31 ≤ c) (h2 : c < 2 ^ 31) : uint32ToInt32 (Bit32.norm c) = c := by
  unfold uint32ToInt32 Bit32.norm
  split <;> omega

theorem parseBinaryHeader_rpc (decode : Bytes → Option J) {rpcType rpcFunctionId : Nat} {c : Int}
    {text binaryData : Bytes} (ht : rpcType < 16) (hf : rpcFunctionId < 2 ^ 28) (hc1 : -2 ^ 31 ≤ c)
    (hc2 : c < 2 ^ 31) (hlen : text.length < 2 ^ 32) {msg : Msg J}
    (hs : msg.serviceType ≠ SERVICE_TYPE.CONTROL)
    (hd : msg.binaryData = rpcData rpcType rpcFunctionId c text binaryData)
    (hsize : BINARY_HEADER_SIZE + text.length + binaryData.length ≤ msg.size) :
    parseBinaryHeader decode false msg = .ok { msg with
      rpcType := some rpcType, rpcFunctionId := some rpcFunctionId, rpcJsonSize := some text.length
      rpcCorrelationId := some c, payload := if text = [] then msg.payload else decode text
      binaryData := binaryData } := by
  have hw : rpcType * 2 ^ 28 + rpcFunctionId < 2 ^ 32 := by omega
  have hb1 : byte msg.binaryData 1 = some (rpcType * 16 + rpcFunctionId / 2 ^ 24) := by
    simp only [hd, rpcData, be32, byte, List.cons_append, Nat.sub_self, List.getElem?_cons_zero,
      Option.map_some, UInt8.toNat_ofNat', Option.some.injEq]
    omega
  have hw1 : bytesToInt32 msg.binaryData 1 = .ok (rpcType * 2 ^ 28 + rpcFunctionId) :=
    bytesToInt32_be32 [] (be32 (Bit32.norm c) ++ be32 text.length ++ text ++ binaryData) hw
      (by simp [hd, rpcData]) rfl
  have hw2 : bytesToInt32 msg.binaryData 5 = .ok (Bit32.norm c) :=
    bytesToInt32_be32 (be32 (rpcType * 2 ^ 28 + rpcFunctionId)) (be32 text.length ++ text ++ binaryData)
      (Bit32.norm_lt c) (by simp [hd, rpcData]) rfl
  have hw3 : bytesToInt32 msg.binaryData 9 = .ok text.length :=
    bytesToInt32_be32 (be32 (rpcType * 2 ^ 28 + rpcFunctionId) ++ be32 (Bit32.norm c)) (text ++ binaryData) hlen
      (by simp [hd, rpcData]) rfl
  have hrt : Bit32.rshift ((rpcType * 16 + rpcFunctionId / 2 ^ 24 : Nat) : Int) 4 = rpcType := by
    rw [Bit32.rshift, Bit32.norm_of_lt (by omega), Nat.shiftRight_eq_div_pow]
    omega
  have hrf : Bit32.band ((rpcType * 2 ^ 28 + rpcFunctionId : Nat) : Int) 0x0fffffff = rpcFunctionId := by
    refine (Bit32.band_mask _ 28 (by decide)).trans ?_
    rw [Bit32.norm_of_lt hw]
    omega
  have htext : sub msg.binaryData (BINARY_HEADER_SIZE + 1) (BINARY_HEADER_SIZE + text.length) = text := by
    simp [hd, rpcData, sub, be32, BINARY_HEADER_SIZE, Nat.add_comm 12]
  have hbin : (if msg.size > text.length + BINARY_HEADER_SIZE then
      subFrom msg.binaryData (BINARY_HEADER_SIZE + text.length + 1) else []) = binaryData := by
    split
    · simp [hd, rpcData, subFrom, be32, BINARY_HEADER_SIZE, Nat.add_comm 12]
    · have : binaryData.length = 0 := by omega
      exact (List.length_eq_zero_iff.mp this).symm
  have hjson : (text.length > 0) = (text ≠ []) := by rw [gt_iff_lt, List.length_pos_iff]
  simp only [parseBinaryHeader, hb1, hw1, hw2, hw3, number_some, bind, Except.bind, pure, Except.pure, hrt, hrf,
    htext, hbin, beq_eq_false_iff_ne.mpr hs, Bool.false_and, Bool.false_eq_true, ↓reduceIte,
    uint32ToInt32_norm hc1 hc2, Bool.not_false, Bool.and_true, hjson, decide_not, Bool.not_eq_true',
    decide_eq_false_iff_not, ne_eq, ite_not]

/-! ### RPC messages -/

/-- An unencrypted single-frame RPC or bulk data message with a string payload. -/
structure RpcMessage where
  version : Nat
  serviceType : Nat
  frameInfo : Nat
  sessionId : Nat
  messageId : Nat
  rpcType : Nat
  rpcFunctionId : Nat
  rpcCorrelationId : Int
  payload : Bytes
  binaryData : Option Bytes
  version_range : 1 ≤ version ∧ version ≤ 5
  service : serviceType = SERVICE_TYPE.RPC ∨ serviceType = SERVICE_TYPE.BULK_DATA
  frameInfo_byte : frameInfo < 256
  sessionId_byte : sessionId < 256
  messageId_word : messageId < 2 ^ 32
  rpcType_range : rpcType < 16
  rpcFunctionId_range : rpcFunctionId < 2 ^ 28
  rpcCorrelationId_range : -2 ^ 31 ≤ rpcCorrelationId ∧ rpcCorrelationId < 2 ^ 31
  length : payload.length + (binaryData.getD []).length < 2 ^ 32

namespace RpcMessage
variable (m : RpcMessage)

def toOutMsg : OutMsg :=
  { version := m.version, encryption := false, frameType := FRAME_TYPE.SINGLE_FRAME
    serviceType := m.serviceType, frameInfo := m.frameInfo, sessionId := m.sessionId
    messageId := m.messageId, rpcType := some m.rpcType, rpcFunctionId := some m.rpcFunctionId
    rpcCorrelationId := some m.rpcCorrelationId, payload := some m.payload, binaryData := m.binaryData }

def data : Bytes :=
  rpcData m.rpcType m.rpcFunctionId m.rpcCorrelationId m.payload (m.binaryData.getD [])

def packed : OutMsg := { m.toOutMsg with binaryData := some m.data }

theorem length_data : m.data.length = BINARY_HEADER_SIZE + m.payload.length + (m.binaryData.getD []).length := by
  simp only [data, rpcData, BINARY_HEADER_SIZE, List.length_append, length_be32]

theorem fits : m.packed.Fits := by
  refine ⟨show 1 < 8 by decide, ?_, m.frameInfo_byte, m.sessionId_byte⟩
  show m.serviceType < 256
  rcases m.service with h | h <;> rw [h] <;> decide

theorem serviceType_ne : m.serviceType ≠ SERVICE_TYPE.CONTROL := by
  rcases m.service with h | h <;> rw [h] <;> decide

theorem hasToBuildBinaryHeader : hasToBuildBinaryHeader m.toOutMsg = true := by
  have h : ∀ s, s = SERVICE_TYPE.RPC ∨ s = SERVICE_TYPE.BULK_DATA →
      (s == SERVICE_TYPE.CONTROL) = false ∧ (s == SERVICE_TYPE.RPC || s == SERVICE_TYPE.BULK_DATA) = true := by
    rintro s (rfl | rfl) <;> decide
  obtain ⟨h1, h2⟩ := h m.serviceType m.service
  simp [Atf.hasToBuildBinaryHeader, toOutMsg, isHandshakeBinaryData, isInternalErrorQuery, h1, h2,
    FRAME_TYPE.SINGLE_FRAME, FRAME_TYPE.CONTROL_FRAME]

theorem isBinaryDataHasHeader : isBinaryDataHasHeader m.serviceType = true := by
  rcases m.service with h | h <;> rw [h] <;> decide

/-- What the receiver gets: `parseData` of any message with the ids and the data of `m`. -/
theorem parseData_eq {e : ParseEnv δ J} (hv : e.validateJson = false) (msg : Msg J)
    (hs : msg.serviceType = m.serviceType) (hd : msg.binaryData = m.data) (hsize : m.data.length ≤ msg.size) :
    e.parseData msg = .ok { msg with
      rpcType := some m.rpcType, rpcFunctionId := some m.rpcFunctionId
      rpcJsonSize := some m.payload.length, rpcCorrelationId := some m.rpcCorrelationId
      payload := if m.payload = [] then msg.payload else e.decode m.payload
      binaryData := m.binaryData.getD [] } := by
  have hlen := m.length
  rw [length_data] at hsize
  rw [ParseEnv.parseData, hs, m.isBinaryDataHasHeader, hv]
  exact parseBinaryHeader_rpc e.decode m.rpcType_range m.rpcFunctionId_range m.rpcCorrelationId_range.1
    m.rpcCorrelationId_range.2 (by omega) (by rw [hs]; exact m.serviceType_ne) hd hsize

/-! ### Sending it -/

variable (security : Security δ) (sec : δ)

theorem compose_toOutMsg {max : Nat} (hmax : maxPayloadSize m.version = .ok max) :
    compose security sec m.toOutMsg =
      if m.data.length > max then do
        let (sec, countOfDataFrames, frames) ←
          consecutiveFrames security m.packed max m.data.length sec 0 m.data
        let total ← int32ToBytes m.data.length
        let count ← int32ToBytes countOfDataFrames
        let (sec, first, _) ← getBinaryFrame security sec (firstFrameMessage m.packed (total ++ count))
        return (sec, first :: frames, { m.packed with binaryData := some [] })
      else do
        let (sec, frame, message) ← getBinaryFrame security sec m.packed
        return (sec, [frame], message) := by
  have hpay := rpcPayload_eq (m := m.toOutMsg) m.rpcType_range m.rpcFunctionId_range
    m.rpcCorrelationId_range.2 rfl rfl rfl
  simp only [compose, composeData, show m.toOutMsg.version = m.version from rfl, hmax, m.hasToBuildBinaryHeader,
    hpay, bind, Except.bind, pure, Except.pure, ↓reduceIte]
  rfl

/-- The first frame of the message in `count` data frames: the length of the data and the count. -/
def firstFrame (count : Nat) : Header × Bytes :=
  (firstFrameMessage m.packed (be32 m.data.length ++ be32 count)).frame (be32 m.data.length ++ be32 count)

theorem firstFrame_fits (data : Bytes) : (firstFrameMessage m.packed data).Fits :=
  firstFrameMessage_fits m.fits.serviceType m.fits.sessionId data

/-- The frames of data that does not fit one frame are a fragmented message with the ids of `m`. -/
theorem fragmented {max : Nat} (hver : m.version < 16) (h0 : 0 < max) (hlt : max < 2 ^ 32) :
    ∃ frags : Fragmented, dataFrames m.packed max m.data.length 0 m.data = frags.middle ++ [frags.last] ∧
      frags.first = m.firstFrame (frags.middle.length + 1) ∧
      dataOf (frags.middle ++ [frags.last]) = m.data ∧
      sizeOfFrames (frags.middle ++ [frags.last]) = m.data.length ∧
      frags.last.1.version = m.version ∧ frags.last.1.serviceType = m.serviceType ∧
      frags.last.1.sessionId = m.sessionId ∧ frags.last.1.messageId = m.messageId := by
  have hmid : Bit32.norm m.messageId = m.messageId := Bit32.norm_of_lt m.messageId_word
  have hne : m.data ≠ [] := List.ne_nil_of_length_pos (by rw [length_data, BINARY_HEADER_SIZE]; omega)
  obtain ⟨middle, last, heq, hdata, hsize, hall, hmidi, hlast⟩ :=
    dataFrames_spec m.fits hver h0 hlt 0 hne (Nat.le_refl _)
  have hids : ∀ f ∈ middle ++ [last], f.1.version = m.version ∧ f.1.serviceType = m.serviceType ∧
      f.1.sessionId = m.sessionId ∧ f.1.messageId = m.messageId ∧ f.1.encryption = false ∧
      f.1.frameType = FRAME_TYPE.CONSECUTIVE_FRAME := by
    intro f hf
    obtain ⟨-, -, info, part, rfl⟩ := hall f hf
    exact ⟨rfl, rfl, rfl, hmid, rfl, rfl⟩
  refine ⟨{
    first := m.firstFrame (middle.length + 1), middle, last
    wellFormed := ?_, plain := ?_, first_type := rfl, type := ?_, ids := ?_, middle_info := hmidi
    last_info := hlast }, heq, rfl, hdata, hsize, ?_⟩
  · intro f hf
    rcases List.mem_cons.mp hf with rfl | hf
    · exact (m.firstFrame_fits _).wellFormed hver (by simp)
    · exact (hall f hf).1
  · intro f hf
    rcases List.mem_cons.mp hf with rfl | hf
    · exact ⟨rfl, List.ne_nil_of_length_pos (by simp [firstFrame, OutMsg.frame])⟩
    · exact ⟨(hids f hf).2.2.2.2.1, (hall f hf).2.1⟩
  · exact fun f hf => (hids f hf).2.2.2.2.2
  · intro f hf
    obtain ⟨-, -, h3, h4, -⟩ := hids f hf
    exact ⟨h3, h4.trans hmid.symm⟩
  · obtain ⟨h1, h2, h3, h4, -⟩ := hids last (by simp)
    exact ⟨h1, h2, h3, h4⟩

/-- `Compose` sends the data in one frame, or as a fragmented message. -/
theorem compose_eq : ∃ max, maxPayloadSize m.version = .ok max ∧ max < 2 ^ 32 ∧
    ((m.data.length ≤ max ∧
        compose security sec m.toOutMsg = .ok (sec, [encodeFrame (m.packed.frame m.data)], m.packed)) ∨
      ∃ (frags : Fragmented) (out : OutMsg),
        compose security sec m.toOutMsg = .ok (sec, frags.frames.map encodeFrame, out) ∧
        dataOf (frags.middle ++ [frags.last]) = m.data ∧
        sizeOfFrames (frags.middle ++ [frags.last]) = m.data.length ∧
        frags.last.1.version = m.version ∧ frags.last.1.serviceType = m.serviceType ∧
        frags.last.1.sessionId = m.sessionId ∧ frags.last.1.messageId = m.messageId) := by
  obtain ⟨max, hmax, h8, hlt⟩ := maxPayloadSize_eq m.version_range
  have hver := (version_of_maxPayloadSize hmax).1
  refine ⟨max, hmax, hlt, ?_⟩
  rw [m.compose_toOutMsg security sec hmax]
  by_cases hl : m.data.length > max
  · right
    obtain ⟨frags, heq, hfirst, hspec⟩ := m.fragmented hver (show 0 < max by omega) hlt
    refine ⟨frags, { m.packed with binaryData := some [] }, ?_, hspec⟩
    rw [if_pos hl, consecutiveFrames_plain security m.fits.serviceType m.fits.sessionId rfl hmax, heq]
    simp only [bind, Except.bind, int32ToBytes_eq, be32_norm, Nat.zero_add, List.length_append,
      List.length_singleton]
    rw [getBinaryFrame_plain security (m.firstFrame_fits _) rfl rfl hmax (by simp; omega), Fragmented.frames,
      hfirst]
    rfl
  · left
    refine ⟨by omega, ?_⟩
    rw [if_neg hl, getBinaryFrame_plain security m.fits rfl rfl hmax (by omega)]
    rfl

end RpcMessage

/-- `Parse` on a fresh handler undoes `Compose`. -/
theorem parse_compose (security : Security δ) (decode : Bytes → Option J) (m : RpcMessage) (sec sec' : δ) :
    ∃ frames out msg calls, compose security sec m.toOutMsg = .ok (sec, frames, out) ∧
      ParseEnv.parse ⟨security, decode, false⟩ .new sec' frames.flatten = .ok ⟨.new, sec', [msg], calls⟩ ∧
      msg.version = m.version ∧ msg.serviceType = m.serviceType ∧ msg.sessionId = m.sessionId ∧
      msg.messageId = m.messageId ∧ msg.rpcType = some m.rpcType ∧
      msg.rpcFunctionId = some m.rpcFunctionId ∧ msg.rpcCorrelationId = some m.rpcCorrelationId ∧
      msg.payload = (if m.payload = [] then none else decode m.payload) ∧
      msg.binaryData = m.binaryData.getD [] := by
  let env : ParseEnv δ J := ⟨security, decode, false⟩
  obtain ⟨max, hmax, hlt, ⟨hl, hc⟩ | ⟨frags, out, hc, hdata, hsize, h1, h2, h3, h4⟩⟩ :=
    m.compose_eq security sec
  · -- one frame
    have hwf : ∀ f ∈ [m.packed.frame m.data], WellFormed f := by
      simp only [List.mem_singleton, forall_eq]
      exact m.fits.wellFormed (version_of_maxPayloadSize hmax).1 (by omega)
    have hne : m.data ≠ [] := by
      refine List.ne_nil_of_length_pos ?_
      rw [m.length_data, BINARY_HEADER_SIZE]
      omega
    have hmsg := m.parseData_eq (e := env) rfl (plainMsg (m.packed.frame m.data)) rfl rfl (Nat.le_refl _)
    have hparse := parse_encodeFrames env hwf Table.empty Table.empty sec'
    rw [List.foldlM_cons, handleFrame_single env _ rfl hne rfl, hmsg] at hparse
    exact ⟨_, m.packed, _, _, hc, hparse, rfl, rfl, rfl, Bit32.norm_of_lt m.messageId_word, rfl, rfl, rfl,
      rfl, rfl⟩
  · -- first and consecutive frames
    have hmsg := m.parseData_eq (e := env) rfl frags.assembled h2 hdata
      (by show _ ≤ frags.first.1.size + sizeOfFrames (frags.middle ++ [frags.last]); omega)
    have hparse := parse_fragmented env frags sec'
    rw [hmsg] at hparse
    exact ⟨_, out, _, _, hc, hparse, h1, h2, h3, h4, rfl, rfl, rfl, rfl, rfl⟩

end Atf
