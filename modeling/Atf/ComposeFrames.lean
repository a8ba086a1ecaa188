import Atf.Fragments

/-!
# What `Compose` puts on the wire

For an unencrypted message `Compose` returns either one frame or a first frame followed by
`dataFrames`, the data in pieces of the payload limit. `rpcPayload` nests a second header in the data;
`parseBinaryHeader_rpc` reads it back.
-/

namespace Atf
open Lua

variable {δ J : Type}

/-! ### The payload limit -/

theorem maxPayloadSize_eq {version : Nat} (h : 1 ≤ version ∧ version ≤ 5) :
    ∃ max, maxPayloadSize version = .ok max ∧ 8 ≤ max ∧ max < 2 ^ 32 := by
  obtain ⟨h1, h2⟩ := h
  have : version = 1 ∨ version = 2 ∨ version = 3 ∨ version = 4 ∨ version = 5 := by omega
  rcases this with rfl | rfl | rfl | rfl | rfl <;> exact ⟨_, rfl, by decide, by decide⟩

theorem version_of_maxPayloadSize {version max : Nat} (h : maxPayloadSize version = .ok max) :
    version < 16 ∧ max < 2 ^ 32 := by
  unfold maxPayloadSize getProtocolFrameSize FRAME_SIZE at h
  split at h
  · rename_i size hs
    split at hs <;> cases hs <;> cases h <;> decide
  · cases h

/-! ### One frame -/

/-- The frame that carries `data` with the ids of `m`. -/
def OutMsg.frame (m : OutMsg) (data : Bytes) : Header × Bytes :=
  ({ version := m.version, frameType := m.frameType, encryption := m.encryption
     serviceType := m.serviceType, frameInfo := m.frameInfo, sessionId := m.sessionId
     size := data.length, messageId := Bit32.norm m.messageId }, data)

/-- The ids of the message fit in one byte each, as `string.char` demands. -/
structure OutMsg.Fits (m : OutMsg) : Prop where
  frameType : m.frameType < 8
  serviceType : m.serviceType < 256
  frameInfo : m.frameInfo < 256
  sessionId : m.sessionId < 256

theorem firstByte_eq {v t : Nat} (hv : v < 16) (ht : t < 8) (e : Bool) :
    Bit32.bor (Bit32.bor (Bit32.lshift v 4) (if e then 0x08 else 0)) (Bit32.band t 0x07) =
      v * 16 + (if e then 8 else 0) + t := by
  have h : ∀ (v : Fin 16) (t : Fin 8) (e : Bool),
      Bit32.bor (Bit32.bor (Bit32.lshift (v : Nat) 4) (if e then 0x08 else 0)) (Bit32.band (t : Nat) 0x07) =
        (v : Nat) * 16 + (if e then 8 else 0) + t := by decide +kernel
  exact h ⟨v, hv⟩ ⟨t, ht⟩ e

theorem OutMsg.Fits.wellFormed {m : OutMsg} (h : m.Fits) (hv : m.version < 16) {data : Bytes}
    (hd : data.length < 2 ^ 32) : WellFormed (m.frame data) :=
  ⟨hv, h.frameType, h.serviceType, h.frameInfo, h.sessionId,
    Bit32.norm_lt (m.messageId : Int), rfl, hd⟩

/-- The header of `m` and the data behind it, whose length the size field keeps modulo `2 ^ 32`. -/
theorem createProtocolHeader_append {m : OutMsg} (h : m.Fits) (hv : m.version < 16) {data : Bytes}
    (hd : m.binaryData.getD [] = data) : (createProtocolHeader m).map (· ++ data) =
      .ok (encodeFrame ({ (m.frame data).1 with size := Bit32.norm data.length }, data)) := by
  have hb : ∀ n ∈ [firstByte (m.frame data).1, m.serviceType, m.frameInfo, m.sessionId], n < 256 := by
    have := h.frameType; have := h.serviceType; have := h.frameInfo; have := h.sessionId
    intro n hn
    simp only [List.mem_cons, List.not_mem_nil, or_false] at hn
    rcases hn with rfl | rfl | rfl | rfl
    · cases he : m.encryption <;> simp [firstByte, OutMsg.frame, he] <;> omega
    all_goals omega
  simp only [createProtocolHeader, int32ToBytes_eq, firstByte_eq hv h.frameType, bind, Except.bind, pure, Except.pure]
  rw [show m.version * 16 + (if m.encryption = true then 8 else 0) + m.frameType =
    firstByte (m.frame data).1 from rfl, char_of_lt hb]
  cases hm : m.binaryData with
  | none =>
    have hz : char [0, 0, 0, 0] = .ok (be32 0) := char_of_lt (by decide)
    obtain rfl : [] = data := by simpa [hm] using hd
    simp [Except.map, hz, encodeFrame, OutMsg.frame, firstByte, Bit32.norm]
  | some data =>
    obtain rfl : data = _ := by simpa [hm] using hd
    simp [Except.map, encodeFrame, OutMsg.frame, firstByte]

theorem createProtocolHeader_eq {m : OutMsg} (h : m.Fits) (hv : m.version < 16) {data : Bytes}
    (hd : m.binaryData = some data) (hl : data.length < 2 ^ 32) :
    (createProtocolHeader m).map (· ++ data) = .ok (encodeFrame (m.frame data)) := by
  rw [createProtocolHeader_append h hv (by rw [hd]; rfl), Bit32.norm_of_lt hl]
  rfl

variable (security : Security δ)

theorem encryptPayload_plain {m : OutMsg} (he : m.encryption = false) (sec : δ) (data : Bytes) :
    encryptPayload security sec data m = .ok (sec, data) := by
  simp [encryptPayload, he, pure, Except.pure]

theorem getBinaryFrame_plain {m : OutMsg} (h : m.Fits) (he : m.encryption = false) {data : Bytes}
    (hd : m.binaryData = some data) {max : Nat} (hm : maxPayloadSize m.version = .ok max)
    (hl : data.length ≤ max) (sec : δ) :
    getBinaryFrame security sec m = .ok (sec, encodeFrame (m.frame data), m) := by
  obtain ⟨hv, hmax⟩ := version_of_maxPayloadSize hm
  have hh := createProtocolHeader_eq h hv hd (by omega)
  have hself : ({ m with binaryData := some data } : OutMsg) = m := by rw [← hd]
  have hle : ¬ data.length > max := by omega
  simp only [getBinaryFrame, hm, hd, hle, encryptPayload_plain security he, hself, bind, Except.bind, pure,
    Except.pure, ↓reduceIte]
  cases hc : createProtocolHeader m with
  | error e => rw [hc] at hh; cases hh
  | ok header =>
    rw [hc] at hh
    simp only [Except.map, Except.ok.injEq] at hh
    simp [hh]

/-! ### The data frames -/

/-- The frames of the data still to be sent after `count` frames. -/
def dataFrames (m : OutMsg) (max : Nat) : (fuel count : Nat) → Bytes → List (Header × Bytes)
  | 0, _, _ => []
  | fuel + 1, count, data =>
    if data.length > 0 then
      (consecutiveFrameMessage m (if (data.drop max).length > 0 then count % 255 + 1 else 0)
        (data.take max)).frame (data.take max) :: dataFrames m max fuel (count + 1) (data.drop max)
    else []

theorem consecutiveFrameMessage_fits {m : OutMsg} (hs : m.serviceType < 256) (hid : m.sessionId < 256) {info : Nat}
    (hi : info < 256) (part : Bytes) : (consecutiveFrameMessage m info part).Fits :=
  ⟨show 3 < 8 by decide, hs, hi, hid⟩

theorem firstFrameMessage_fits {m : OutMsg} (hs : m.serviceType < 256) (hid : m.sessionId < 256) (data : Bytes) :
    (firstFrameMessage m data).Fits :=
  ⟨show 2 < 8 by decide, hs, show 0 < 256 by decide, hid⟩

theorem frameInfo_lt (c : Prop) [Decidable c] (count : Nat) : (if c then count % 255 + 1 else 0) < 256 := by
  split <;> omega

theorem consecutiveFrames_plain {m : OutMsg} (hs : m.serviceType < 256) (hid : m.sessionId < 256)
    (he : m.encryption = false) {max : Nat}
    (hm : maxPayloadSize m.version = .ok max) (sec : δ) (fuel count : Nat) (data : Bytes) :
    consecutiveFrames security m max fuel sec count data =
      .ok (sec, count + (dataFrames m max fuel count data).length,
        (dataFrames m max fuel count data).map encodeFrame) := by
  induction fuel generalizing count data with
  | zero => rfl
  | succ fuel ih =>
    unfold consecutiveFrames dataFrames
    split
    · have hpart : sub data 1 max = data.take max := by simp [sub]
      have hrest : subFrom data (max + 1) = data.drop max := rfl
      simp only [hpart, hrest, Nat.add_sub_cancel, bind, Except.bind]
      rw [getBinaryFrame_plain security (consecutiveFrameMessage_fits hs hid (frameInfo_lt _ _) _) he rfl hm
        (List.length_take_le ..)]
      simp [ih, pure, Except.pure, Nat.add_assoc, Nat.add_comm 1]
    · rfl

/-- The data frames are consecutive frames with the ids of the message that carry the data, and only
the last has frame info 0. -/
theorem dataFrames_spec {m : OutMsg} (h : m.Fits) (hv : m.version < 16) {max : Nat} (h0 : 0 < max)
    (hmax : max < 2 ^ 32) {fuel : Nat} (count : Nat) {data : Bytes} (hd : data ≠ []) (hf : data.length ≤ fuel) :
    ∃ middle last, dataFrames m max fuel count data = middle ++ [last] ∧
      dataOf (middle ++ [last]) = data ∧ sizeOfFrames (middle ++ [last]) = data.length ∧
      (∀ f ∈ middle ++ [last], WellFormed f ∧ f.2 ≠ [] ∧
        ∃ info part, f = (consecutiveFrameMessage m info part).frame part) ∧
      (∀ f ∈ middle, f.1.frameInfo ≠ LAST_FRAME) ∧ last.1.frameInfo = LAST_FRAME := by
  induction fuel generalizing count data with
  | zero => exact absurd (List.length_eq_zero_iff.mp (by omega)) hd
  | succ fuel ih =>
    have hpos : data.length > 0 := List.length_pos_of_ne_nil hd
    have htake : data.take max ≠ [] := by
      intro ht
      have := congrArg List.length ht
      simp only [List.length_take, List.length_nil] at this
      omega
    have hwf : ∀ info < 256, WellFormed ((consecutiveFrameMessage m info (data.take max)).frame (data.take max)) :=
      fun info hi => (consecutiveFrameMessage_fits h.serviceType h.sessionId hi _).wellFormed hv
        (by simp only [List.length_take]; omega)
    simp only [dataFrames, hpos, ↓reduceIte]
    by_cases hrest : data.drop max = []
    · -- the last piece
      have hall : data.take max = data := by
        rw [List.drop_eq_nil_iff] at hrest
        exact List.take_of_length_le hrest
      refine ⟨[], (consecutiveFrameMessage m 0 (data.take max)).frame (data.take max), ?_, ?_, ?_, ?_, by simp, rfl⟩
      · cases fuel <;> simp [hrest, dataFrames]
      · simp [OutMsg.frame, hall]
      · simp [OutMsg.frame, hall]
      · simp only [List.nil_append, List.mem_singleton, forall_eq]
        exact ⟨hwf 0 (by decide), htake, _, _, rfl⟩
    · have hlt : max < data.length := by
        rw [List.drop_eq_nil_iff] at hrest; omega
      obtain ⟨middle, last, heq, hdata, hsize, hall, hmid, hlast⟩ :=
        ih (count + 1) hrest (by simp only [List.length_drop]; omega)
      have hinfo : (data.drop max).length > 0 := List.length_pos_of_ne_nil hrest
      refine ⟨(consecutiveFrameMessage m (count % 255 + 1) (data.take max)).frame (data.take max) :: middle,
        last, ?_, ?_, ?_, ?_, ?_, hlast⟩
      · simp only [hinfo, ↓reduceIte, heq, List.cons_append]
      · rw [List.cons_append, dataOf_cons, hdata]
        exact List.take_append_drop max data
      · rw [List.cons_append, sizeOfFrames_cons, hsize]
        simp only [OutMsg.frame, List.length_take, List.length_drop]
        omega
      · intro f hf
        rw [List.cons_append, List.mem_cons] at hf
        rcases hf with rfl | hf
        · exact ⟨hwf _ (by omega), htake, _, _, rfl⟩
        · exact hall f hf
      · intro f hf
        rcases List.mem_cons.mp hf with rfl | hf
        · exact Nat.succ_ne_zero _
        · exact hmid f hf

end Atf
