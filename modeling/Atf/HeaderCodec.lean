import Atf.ComposeFrames

/-!
# The header codec

`createProtocolHeader` and `parseProtocolHeader` undo each other. The size field has 32 bits, so of a
longer payload it keeps the length modulo `2 ^ 32`; every other field comes back as it was.
-/

namespace Atf
open Lua

/-! ### From a message to bytes and back -/

/-- The fields of `m` as a header, with `size` in its size field. -/
def OutMsg.header (m : OutMsg) (size : Nat) : Header :=
  { version := m.version, frameType := m.frameType, encryption := m.encryption
    serviceType := m.serviceType, frameInfo := m.frameInfo, sessionId := m.sessionId
    size := size, messageId := m.messageId }

/-- From the header of `m` with `payload` behind it all fields of `m` and `size` are read. -/
def ReadsBack (m : OutMsg) (payload : Bytes) (size : Nat) : Prop :=
  ∃ header, createProtocolHeader m = .ok header ∧
    parseProtocolHeader (header ++ payload) = .ok (some (m.header size))

theorem OutMsg.Fits.header {m : OutMsg} (h : m.Fits) (hv : m.version < 16) (hid : m.messageId < 2 ^ 32) {size : Nat}
    (hs : size < 2 ^ 32) : (m.header size).Fits :=
  ⟨hv, h.frameType, h.serviceType, h.frameInfo, h.sessionId, hid, hs⟩

theorem readsBack_mod {m : OutMsg} (h : m.Fits) (hv : m.version < 16) (hid : m.messageId < 2 ^ 32) {payload : Bytes}
    (hp : m.binaryData.getD [] = payload) : ReadsBack m payload (payload.length % 2 ^ 32) := by
  obtain ⟨header, hcreate, hbytes⟩ := map_eq_ok.mp (createProtocolHeader_append h hv hp)
  have hframe : ({ (m.frame payload).1 with size := Bit32.norm payload.length } : Header) =
      m.header (payload.length % 2 ^ 32) := by
    simp only [OutMsg.frame, OutMsg.header, Bit32.norm_natCast, Nat.mod_eq_of_lt hid]
  have hsize : payload.length % 2 ^ 32 < 2 ^ 32 := Nat.mod_lt _ (by decide)
  have hle := Nat.mod_le payload.length (2 ^ 32)
  refine ⟨header, hcreate, ?_⟩
  rw [hbytes, hframe, parseProtocolHeader_eq (readHeader_encodeFrame (h.header hv hid hsize) payload), if_neg]
  simp only [encodeFrame, List.length_append, List.length_cons, List.length_nil, length_be32, PROTOCOL_HEADER_SIZE,
    OutMsg.header]
  omega

/-! ### From a frame to a message and back -/

/-- The message with the fields of a parsed header and the payload. -/
def Header.toMessage (hd : Header) (payload : Bytes) : OutMsg :=
  { version := hd.version, encryption := hd.encryption, frameType := hd.frameType
    serviceType := hd.serviceType, frameInfo := hd.frameInfo, sessionId := hd.sessionId
    messageId := hd.messageId, rpcType := none, rpcFunctionId := none, rpcCorrelationId := none
    payload := none, binaryData := some payload }

/-- The bytes of a frame: four bytes of one field each, the first shared, then the size, the message
id and the payload. -/
def frameBytes (b1 b2 b3 b4 s1 s2 s3 s4 i1 i2 i3 i4 : UInt8) (payload : Bytes) : Bytes :=
  b1 :: b2 :: b3 :: b4 :: s1 :: s2 :: s3 :: s4 :: i1 :: i2 :: i3 :: i4 :: payload

theorem be32_word32 (a b c d : UInt8) : be32 (word32 a b c d) = [a, b, c, d] := by
  have := a.toNat_lt; have := b.toNat_lt; have := c.toNat_lt; have := d.toNat_lt
  simp only [be32, word32, List.cons.injEq, ← UInt8.toNat_inj, UInt8.toNat_ofNat', and_true]
  omega

theorem word32_lt (a b c d : UInt8) : word32 a b c d < 2 ^ 32 := by
  have := a.toNat_lt; have := b.toNat_lt; have := c.toNat_lt; have := d.toNat_lt
  unfold word32
  omega

/-- The first byte is put together again from its three fields. -/
theorem ofNat_firstByte {hd : Header} {b : UInt8} (hv : hd.version = b.toNat / 16) (ht : hd.frameType = b.toNat % 8)
    (he : hd.encryption = (b.toNat / 8 % 2 == 1)) : UInt8.ofNat (firstByte hd) = b := by
  have := b.toNat_lt
  rw [← UInt8.toNat_inj, UInt8.toNat_ofNat', firstByte, hv, ht, he]
  by_cases hbit : b.toNat / 8 % 2 = 1
  · rw [beq_of_eq hbit, if_pos rfl]
    omega
  · rw [beq_false_of_ne hbit, if_neg Bool.false_ne_true]
    omega

theorem getBinaryFrame_toMessage {δ : Type} (security : Security δ) (sec : δ) {hd : Header} {payload : Bytes}
    (h : hd.Fits) (he : hd.encryption = false) (hs : hd.size = payload.length) {max : Nat}
    (hm : maxPayloadSize hd.version = .ok max) (hl : payload.length ≤ max) :
    getBinaryFrame security sec (hd.toMessage payload) =
      .ok (sec, encodeFrame (hd, payload), hd.toMessage payload) := by
  have hfits : (hd.toMessage payload).Fits := ⟨h.frameType, h.serviceType, h.frameInfo, h.sessionId⟩
  have hframe : (hd.toMessage payload).frame payload = (hd, payload) := by
    simp only [OutMsg.frame, Header.toMessage, ← hs, Bit32.norm_of_lt h.messageId]
  rw [getBinaryFrame_plain security hfits he rfl hm hl, hframe]

theorem getBinaryFrame_frameBytes {b1 b2 b3 b4 s1 s2 s3 s4 i1 i2 i3 i4 : UInt8} {payload : Bytes} {max : Nat}
    (he : b1.toNat / 8 % 2 = 0) (hsize : word32 s1 s2 s3 s4 = payload.length)
    (hm : maxPayloadSize (b1.toNat / 16) = .ok max) (hl : payload.length ≤ max) :
    ∃ hd, parseProtocolHeader (frameBytes b1 b2 b3 b4 s1 s2 s3 s4 i1 i2 i3 i4 payload) = .ok (some hd) ∧
      ∀ {δ : Type} (security : Security δ) (sec : δ), getBinaryFrame security sec (hd.toMessage payload) =
        .ok (sec, frameBytes b1 b2 b3 b4 s1 s2 s3 s4 i1 i2 i3 i4 payload, hd.toMessage payload) := by
  have hread : ∃ hd, readHeader (frameBytes b1 b2 b3 b4 s1 s2 s3 s4 i1 i2 i3 i4 payload) = some hd := ⟨_, rfl⟩
  obtain ⟨hd, hread⟩ := hread
  have hhd := hread
  simp only [frameBytes, readHeader, Option.some.injEq] at hhd
  have hb : hd.encryption = false := by
    rw [← hhd]
    exact beq_false_of_ne (by omega)
  have := b1.toNat_lt
  have hfits : hd.Fits := by
    rw [← hhd]
    exact ⟨show b1.toNat / 16 < 16 by omega, Nat.mod_lt _ (by decide), b2.toNat_lt, b3.toNat_lt, b4.toNat_lt,
      word32_lt .., word32_lt ..⟩
  have henc : encodeFrame (hd, payload) = frameBytes b1 b2 b3 b4 s1 s2 s3 s4 i1 i2 i3 i4 payload := by
    have hfirst : UInt8.ofNat (firstByte hd) = b1 := ofNat_firstByte (by rw [← hhd]) (by rw [← hhd]) (by rw [← hhd])
    rw [encodeFrame, hfirst, ← hhd]
    simp [be32_word32, frameBytes]
  refine ⟨hd, ?_, fun security sec => ?_⟩
  · rw [parseProtocolHeader_eq hread, if_neg]
    rw [← hhd]
    simp only [frameBytes, List.length_cons, PROTOCOL_HEADER_SIZE]
    omega
  · have hs : hd.size = payload.length := by rw [← hhd]; exact hsize
    have hver : maxPayloadSize hd.version = .ok max := by rw [← hhd]; exact hm
    rw [getBinaryFrame_toMessage security sec hfits hb hs hver hl, henc]

/-! ### Both directions -/

/-- A created header reads back as the fields of its message, with the size of the payload in 32 bits; and a frame that
was read is composed again as it was, byte by byte. -/
theorem header_codec :
    (∀ (m : OutMsg) (payload : Bytes), m.version < 16 → m.frameType < 8 → m.serviceType < 256 →
        m.frameInfo < 256 → m.sessionId < 256 → m.messageId < 2 ^ 32 → m.binaryData.getD [] = payload →
        ReadsBack m payload (payload.length % 2 ^ 32)) ∧
      (∀ (b1 b2 b3 b4 s1 s2 s3 s4 i1 i2 i3 i4 : UInt8) (payload : Bytes), 1 ≤ b1.toNat / 16 → b1.toNat / 16 ≤ 5 →
        b1.toNat / 8 % 2 = 0 → word32 s1 s2 s3 s4 = payload.length →
        (∀ max, maxPayloadSize (b1.toNat / 16) = .ok max → payload.length ≤ max) →
        ∃ hd, parseProtocolHeader (frameBytes b1 b2 b3 b4 s1 s2 s3 s4 i1 i2 i3 i4 payload) = .ok (some hd) ∧
          ∀ {δ : Type} (security : Security δ) (sec : δ), getBinaryFrame security sec (hd.toMessage payload) =
            .ok (sec, frameBytes b1 b2 b3 b4 s1 s2 s3 s4 i1 i2 i3 i4 payload, hd.toMessage payload)) := by
  constructor
  · intro m payload hv ht hs hi hses hid hp
    exact readsBack_mod ⟨ht, hs, hi, hses⟩ hv hid hp
  · intro b1 b2 b3 b4 s1 s2 s3 s4 i1 i2 i3 i4 payload h1 h5 he hsize hlimit
    obtain ⟨max, hm, -⟩ := maxPayloadSize_eq ⟨h1, h5⟩
    exact getBinaryFrame_frameBytes he hsize hm (hlimit max hm)

/-- A single frame of version 2 with two bytes of data. -/
def shortMessage : OutMsg :=
  { version := 2, encryption := false, frameType := 1, serviceType := 10, frameInfo := 0, sessionId := 3
    messageId := 258, rpcType := none, rpcFunctionId := none, rpcCorrelationId := none, payload := none
    binaryData := some [9, 8] }

theorem header_codec_short : ReadsBack shortMessage [9, 8] 2 ∧
    ∃ hd, parseProtocolHeader [0x21, 10, 0, 3, 0, 0, 0, 2, 0, 0, 1, 2, 9, 8] = .ok (some hd) ∧
      ∀ {δ : Type} (security : Security δ) (sec : δ), getBinaryFrame security sec (hd.toMessage [9, 8]) =
        .ok (sec, [0x21, 10, 0, 3, 0, 0, 0, 2, 0, 0, 1, 2, 9, 8], hd.toMessage [9, 8]) :=
  ⟨header_codec.1 shortMessage [9, 8] (by decide) (by decide) (by decide) (by decide) (by decide) (by decide) rfl,
    header_codec.2 0x21 10 0 3 0 0 0 2 0 0 1 2 [9, 8] (by decide) (by decide) (by decide) (by decide)
      (by intro max hm; cases hm; decide)⟩

/-- A payload of `2 ^ 32` bytes. -/
def longPayload : Bytes := List.replicate (2 ^ 32) 0

theorem ReadsBack.size_unique {m : OutMsg} {payload : Bytes} {size size' : Nat} (h : ReadsBack m payload size)
    (h' : ReadsBack m payload size') : size = size' := by
  obtain ⟨header, hcreate, hparse⟩ := h
  obtain ⟨header', hcreate', hparse'⟩ := h'
  obtain rfl : header = header' := Except.ok.inj (hcreate.symm.trans hcreate')
  exact congrArg Header.size (Option.some.inj (Except.ok.inj (hparse.symm.trans hparse')))

/-- The size field of a message of `2 ^ 32` bytes is 0. -/
theorem long_payload_size :
    ¬ ReadsBack { shortMessage with binaryData := some longPayload } longPayload longPayload.length := by
  intro h
  have hmod : ReadsBack { shortMessage with binaryData := some longPayload } longPayload
      (longPayload.length % 2 ^ 32) := by
    refine readsBack_mod ⟨?_, ?_, ?_, ?_⟩ ?_ ?_ rfl <;> simp [shortMessage]
  have hlen : longPayload.length = 2 ^ 32 := List.length_replicate
  have := h.size_unique hmod
  rw [hlen] at this
  omega

end Atf
