import Atf.Protocol
import Atf.Lib.Splitter

/-!
# Frames on the wire

What the byte-level functions of the protocol handler compute: `int32ToBytes` and `bytesToInt32` are
the big-endian codec of 32-bit words, `parseProtocolHeader` reads the twelve header bytes
(`readHeader`), and the loop of `Parse` is a `Splitter`: `parse_eq` says that `Parse` cuts the
complete frames off its buffer and gives them to `handleFrame` one by one.
-/

namespace Atf
open Lua

/-! ### Words -/

theorem int32ToBytes_eq (val : Int) : int32ToBytes val = .ok (be32 (Bit32.norm val)) := by
  have h0 : Bit32.band val 0xff = Bit32.norm val % 2 ^ 8 := Bit32.band_mask val 8 (by decide)
  have h1 : Bit32.rshift (Bit32.band val 0xff00) 8 = Bit32.norm val / 2 ^ 8 % 256 :=
    Bit32.rshift_band_byte val 1 (by decide)
  have h2 : Bit32.rshift (Bit32.band val 0xff0000) 16 = Bit32.norm val / 2 ^ 16 % 256 :=
    Bit32.rshift_band_byte val 2 (by decide)
  have h3 : Bit32.rshift (Bit32.band val 0xff000000) 24 = Bit32.norm val / 2 ^ 24 % 256 :=
    Bit32.rshift_band_byte val 3 (by decide)
  unfold int32ToBytes
  rw [h0, h1, h2, h3, char_of_lt (by intro n hn; simp at hn; omega)]
  simp [be32, ← UInt8.toNat_inj]

theorem be32_norm (n : Nat) : be32 (Bit32.norm n) = be32 n := by
  rw [Bit32.norm_natCast]
  simp only [be32, List.cons.injEq, ← UInt8.toNat_inj, UInt8.toNat_ofNat', and_true]
  omega

theorem lshift_byte (a : UInt8) (k : Nat) (hk : k ≤ 24) : Bit32.lshift a.toNat k = a.toNat * 2 ^ k := by
  have ha := a.toNat_lt
  have hp : 2 ^ k ≤ 2 ^ 24 := Nat.pow_le_pow_right (by decide) hk
  have hlt : a.toNat * 2 ^ k < 2 ^ 32 :=
    calc a.toNat * 2 ^ k ≤ 255 * 2 ^ 24 := Nat.mul_le_mul (by omega) hp
      _ < 2 ^ 32 := by decide
  rw [Bit32.lshift, Bit32.norm_of_lt (by omega), Nat.shiftLeft_eq, Nat.mod_eq_of_lt hlt]

theorem bytesToInt32_append (pre post : Bytes) (a b c d : UInt8) (offset : Nat)
    (h : offset = pre.length + 1) :
    bytesToInt32 (pre ++ a :: b :: c :: d :: post) offset = .ok (word32 a b c d) := by
  subst h
  simp [bytesToInt32, byte, bind, Except.bind, pure, Except.pure, lshift_byte, word32]

/-- A word that stands in the data at the offset is read. -/
theorem bytesToInt32_be32 {data : Bytes} (pre post : Bytes) {n offset : Nat} (hn : n < 2 ^ 32)
    (hdata : data = pre ++ be32 n ++ post) (hoffset : offset = pre.length + 1) : bytesToInt32 data offset = .ok n := by
  rw [hdata, be32, List.append_assoc]
  refine (bytesToInt32_append pre post _ _ _ _ offset hoffset).trans ?_
  rw [word32_be32, Nat.mod_eq_of_lt hn]

/-! ### Headers -/

theorem length_createProtocolHeader {message : OutMsg} {header : Bytes}
    (h : createProtocolHeader message = .ok header) : header.length = PROTOCOL_HEADER_SIZE := by
  obtain ⟨res, hres, h⟩ := bind_eq_ok.mp h
  have hres := length_of_char hres
  dsimp only at h
  split at h
  all_goals
    obtain ⟨size, hsize, h⟩ := bind_eq_ok.mp h
    obtain ⟨messageId, hid, h⟩ := bind_eq_ok.mp h
    cases h
    rw [List.length_append, List.length_append, hres, length_of_char hsize, length_of_char hid]
    rfl

/-- The header in the first twelve bytes, which `parseProtocolHeader` reads. -/
def readHeader : Bytes → Option Header
  | b1 :: b2 :: b3 :: b4 :: s1 :: s2 :: s3 :: s4 :: m1 :: m2 :: m3 :: m4 :: _ => some
    { version := b1.toNat / 16
      frameType := b1.toNat % 8
      encryption := b1.toNat / 8 % 2 == 1
      serviceType := b2.toNat
      frameInfo := b3.toNat
      sessionId := b4.toNat
      size := word32 s1 s2 s3 s4
      messageId := word32 m1 m2 m3 m4 }
  | _ => none

theorem readHeader_append {b : Bytes} {h : Header} (hb : readHeader b = some h) (x : Bytes) :
    readHeader (b ++ x) = some h := by
  unfold readHeader at hb
  split at hb
  · simpa [readHeader] using hb
  · cases hb

theorem readHeader_isSome {b : Bytes} (h : PROTOCOL_HEADER_SIZE ≤ b.length) : ∃ hd, readHeader b = some hd := by
  match b, h with
  | _ :: _ :: _ :: _ :: _ :: _ :: _ :: _ :: _ :: _ :: _ :: _ :: _, _ => exact ⟨_, rfl⟩

theorem length_of_readHeader {b : Bytes} {hd : Header} (h : readHeader b = some hd) :
    PROTOCOL_HEADER_SIZE ≤ b.length := by
  unfold readHeader at h
  split at h
  · simp [PROTOCOL_HEADER_SIZE]
  · cases h

theorem firstByte_fields (b : UInt8) :
    Bit32.rshift (Bit32.band b.toNat 0xf0) 4 = b.toNat / 16 ∧ Bit32.band b.toNat 0x07 = b.toNat % 8 ∧
      (Bit32.band b.toNat 0x08 == 0x08) = (b.toNat / 8 % 2 == 1) := by
  have h : ∀ n : Fin 256, Bit32.rshift (Bit32.band (n : Nat) 0xf0) 4 = n / 16 ∧
      Bit32.band (n : Nat) 0x07 = n % 8 ∧
      (Bit32.band (n : Nat) 0x08 == 0x08) = ((n : Nat) / 8 % 2 == 1) := by decide +kernel
  exact h ⟨b.toNat, b.toNat_lt⟩

theorem parseProtocolHeader_eq {b : Bytes} {hd : Header} (h : readHeader b = some hd) :
    parseProtocolHeader b =
      .ok (if b.length < hd.size + PROTOCOL_HEADER_SIZE then none else some hd) := by
  unfold readHeader at h
  split at h
  · rename_i b1 b2 b3 b4 s1 s2 s3 s4 m1 m2 m3 m4 rest
    cases h
    have hsize := bytesToInt32_append [b1, b2, b3, b4] (m1 :: m2 :: m3 :: m4 :: rest) s1 s2 s3 s4 5 rfl
    have hmsg := bytesToInt32_append [b1, b2, b3, b4, s1, s2, s3, s4] rest m1 m2 m3 m4 9 rfl
    obtain ⟨hv, ht, he⟩ := firstByte_fields b1
    simp only [List.cons_append, List.nil_append] at hsize hmsg
    simp only [parseProtocolHeader, hsize, hmsg, bind, Except.bind, pure, Except.pure, byte]
    split
    · rfl
    · simp [hv, ht, he]
  · cases h

/-! ### Cutting frames off the buffer -/

/-- The first complete frame of the buffer, header and data, and the buffer behind it. -/
def nextFrame (buffer : Bytes) : Option ((Header × Bytes) × Bytes) :=
  match readHeader buffer with
  | none => none
  | some hd =>
    if buffer.length < hd.size + PROTOCOL_HEADER_SIZE then none
    else some ((hd, (buffer.drop PROTOCOL_HEADER_SIZE).take hd.size),
      buffer.drop (hd.size + PROTOCOL_HEADER_SIZE))

theorem nextFrame_eq_some {b r : Bytes} {hd : Header} {data : Bytes} :
    nextFrame b = some ((hd, data), r) ↔
      readHeader b = some hd ∧ hd.size + PROTOCOL_HEADER_SIZE ≤ b.length ∧
        data = (b.drop PROTOCOL_HEADER_SIZE).take hd.size ∧
        r = b.drop (hd.size + PROTOCOL_HEADER_SIZE) := by
  unfold nextFrame
  split
  · rename_i hb; simp [hb]
  · rename_i hd' hb
    rw [hb]
    split
    · rename_i hlt
      simp only [Option.some.injEq, reduceCtorEq, false_iff, not_and]
      rintro rfl hle
      omega
    · rename_i hle
      simp only [Option.some.injEq, Prod.mk.injEq]
      constructor
      · rintro ⟨⟨rfl, rfl⟩, rfl⟩
        exact ⟨rfl, by omega, rfl, rfl⟩
      · rintro ⟨rfl, -, rfl, rfl⟩
        exact ⟨⟨rfl, rfl⟩, rfl⟩

def wire : Splitter UInt8 (Header × Bytes) where
  next := nextFrame
  next_length := by
    rintro b ⟨hd, data⟩ r h
    obtain ⟨-, hlen, -, rfl⟩ := nextFrame_eq_some.mp h
    simp only [PROTOCOL_HEADER_SIZE, List.length_drop] at hlen ⊢
    omega
  next_append := by
    rintro b ⟨hd, data⟩ r x h
    obtain ⟨hhd, hlen, rfl, rfl⟩ := nextFrame_eq_some.mp h
    refine nextFrame_eq_some.mpr ⟨readHeader_append hhd x, by simp; omega, ?_, ?_⟩
    · rw [List.drop_append_of_le_length (by omega), List.take_append_of_le_length]
      simp only [List.length_drop]; omega
    · rw [List.drop_append_of_le_length hlen]

theorem wire_next (b : Bytes) : wire.next b = nextFrame b := rfl

/-! ### Encoding frames -/

/-- A frame as it can stand on the wire: every field fits its place and the size field is the length
of the data. -/
structure WellFormed (f : Header × Bytes) : Prop where
  version : f.1.version < 16
  frameType : f.1.frameType < 8
  serviceType : f.1.serviceType < 256
  frameInfo : f.1.frameInfo < 256
  sessionId : f.1.sessionId < 256
  messageId : f.1.messageId < 2 ^ 32
  size : f.1.size = f.2.length
  size_lt : f.1.size < 2 ^ 32

def firstByte (hd : Header) : Nat := hd.version * 16 + (if hd.encryption then 8 else 0) + hd.frameType

def encodeFrame (f : Header × Bytes) : Bytes :=
  [UInt8.ofNat (firstByte f.1), UInt8.ofNat f.1.serviceType, UInt8.ofNat f.1.frameInfo,
    UInt8.ofNat f.1.sessionId] ++ be32 f.1.size ++ be32 f.1.messageId ++ f.2

/-- Every field fits its place in the header. -/
structure Header.Fits (hd : Header) : Prop where
  version : hd.version < 16
  frameType : hd.frameType < 8
  serviceType : hd.serviceType < 256
  frameInfo : hd.frameInfo < 256
  sessionId : hd.sessionId < 256
  messageId : hd.messageId < 2 ^ 32
  size : hd.size < 2 ^ 32

theorem WellFormed.fits {f : Header × Bytes} (hf : WellFormed f) : f.1.Fits :=
  ⟨hf.version, hf.frameType, hf.serviceType, hf.frameInfo, hf.sessionId, hf.messageId, hf.size_lt⟩

theorem firstByte_lt {hd : Header} (h : hd.Fits) : firstByte hd < 256 := by
  have := h.version
  have := h.frameType
  unfold firstByte
  split <;> omega

/-- What stands in a header is read from it, whatever the data behind it. -/
theorem readHeader_encodeFrame {hd : Header} (h : hd.Fits) (data : Bytes) :
    readHeader (encodeFrame (hd, data)) = some hd := by
  have h0 := Nat.mod_eq_of_lt (firstByte_lt h)
  have h1 := h.frameType
  have h2 := Nat.mod_eq_of_lt h.serviceType
  have h3 := Nat.mod_eq_of_lt h.frameInfo
  have h4 := Nat.mod_eq_of_lt h.sessionId
  have h5 := Nat.mod_eq_of_lt h.size
  have h6 := Nat.mod_eq_of_lt h.messageId
  simp only [encodeFrame, be32, List.cons_append, List.nil_append, readHeader, word32_be32, h5, h6,
    UInt8.toNat_ofNat', h0, h2, h3, h4, Option.some.injEq]
  obtain ⟨version, frameType, encryption, serviceType, frameInfo, sessionId, size, messageId⟩ := hd
  cases encryption <;> simp [firstByte] at h1 ⊢ <;> omega

theorem nextFrame_encodeFrame {f : Header × Bytes} (hf : WellFormed f) (rest : Bytes) :
    nextFrame (encodeFrame f ++ rest) = some (f, rest) := by
  have hread : readHeader (encodeFrame f ++ rest) = some f.1 :=
    readHeader_append (readHeader_encodeFrame hf.fits f.2) rest
  have hsize : f.1.size = f.2.length := hf.size
  refine nextFrame_eq_some.mpr ⟨hread, ?_, ?_, ?_⟩
  · simp [encodeFrame, PROTOCOL_HEADER_SIZE, hsize]; omega
  · simp [encodeFrame, PROTOCOL_HEADER_SIZE, hsize, be32]
  · simp [encodeFrame, PROTOCOL_HEADER_SIZE, hsize, be32]

/-- Encoded frames are cut off one by one. -/
theorem split_encodeFrames {fs : List (Header × Bytes)} (hfs : ∀ f ∈ fs, WellFormed f) :
    wire.split (fs.map encodeFrame).flatten = (fs, []) := by
  induction fs with
  | nil => exact wire.split_of_next_none rfl
  | cons f fs ih =>
    have hn : wire.next (encodeFrame f ++ (fs.map encodeFrame).flatten) = some (f, _) :=
      nextFrame_encodeFrame (hfs f (by simp)) _
    rw [List.map_cons, List.flatten_cons, wire.split_of_next_some hn, ih fun g hg => hfs g (by simp [hg])]

/-! ### The loop of `Parse` -/

variable {δ J : Type} (env : ParseEnv δ J)

theorem parseLoop_eq {fuel : Nat} {buffer : Bytes} (hf : buffer.length ≤ fuel) (st : ParseState δ J) :
    env.parseLoop fuel buffer st =
      ((wire.split buffer).1.foldlM env.handleFrame st).map fun st => ((wire.split buffer).2, st) := by
  induction fuel generalizing buffer st with
  | zero =>
    have hb : buffer = [] := List.length_eq_zero_iff.mp (by omega)
    subst hb
    rfl
  | succ fuel ih =>
    unfold ParseEnv.parseLoop
    split
    · rename_i hlen
      obtain ⟨hd, hhd⟩ := readHeader_isSome hlen
      rw [parseProtocolHeader_eq hhd]
      by_cases hsz : buffer.length < hd.size + PROTOCOL_HEADER_SIZE
      · have hn : wire.next buffer = none := by simp [wire_next, nextFrame, hhd, hsz]
        simp [wire.split_of_next_none hn, hsz, bind, Except.bind, pure, Except.pure, Except.map]
      · have hn : wire.next buffer = some ((hd, (buffer.drop PROTOCOL_HEADER_SIZE).take hd.size),
            buffer.drop (hd.size + PROTOCOL_HEADER_SIZE)) :=
          nextFrame_eq_some.mpr ⟨hhd, by omega, rfl, rfl⟩
        have hsub : sub buffer (PROTOCOL_HEADER_SIZE + 1) (PROTOCOL_HEADER_SIZE + hd.size) =
            (buffer.drop PROTOCOL_HEADER_SIZE).take hd.size := by
          rw [sub, List.drop_take]; simp
        have hfrom : subFrom buffer (hd.size + PROTOCOL_HEADER_SIZE + 1) =
            buffer.drop (hd.size + PROTOCOL_HEADER_SIZE) := rfl
        have hr := wire.next_length hn
        rw [wire.split_of_next_some hn]
        simp only [hsz, ↓reduceIte, bind, Except.bind, hsub, hfrom, List.foldlM_cons]
        cases env.handleFrame st (hd, (buffer.drop PROTOCOL_HEADER_SIZE).take hd.size) with
        | error e => rfl
        | ok st' => exact ih (by omega) st'
    · rename_i hlen
      have hn : wire.next buffer = none := by
        rw [wire_next, nextFrame]
        split
        · rfl
        · rename_i hhd; exact absurd (length_of_readHeader hhd) hlen
      simp [wire.split_of_next_none hn, pure, Except.pure, Except.map]

/-- `Parse` gives the complete frames of its buffer to `handleFrame`, one by one, and keeps the rest. -/
theorem parse_eq (self : ProtocolHandler) (sec : δ) (binary : Bytes) :
    env.parse self sec binary =
      ((wire.split (self.buffer ++ binary)).1.foldlM env.handleFrame
        ⟨sec, self.frames, self.totalSize, [], []⟩).map fun st =>
          ⟨⟨(wire.split (self.buffer ++ binary)).2, st.frames, st.totalSize⟩, st.sec, st.res, st.calls⟩ := by
  simp only [ParseEnv.parse, parseLoop_eq env (Nat.le_refl _)]
  cases (wire.split (self.buffer ++ binary)).1.foldlM env.handleFrame
    ⟨sec, self.frames, self.totalSize, [], []⟩ <;> rfl

/-- Encoded frames given to a handler with an empty buffer reach `handleFrame` as they are. -/
theorem parse_encodeFrames {fs : List (Header × Bytes)} (hfs : ∀ f ∈ fs, WellFormed f)
    (frames : Table String Bytes) (totalSize : Table String Nat) (sec : δ) :
    env.parse ⟨[], frames, totalSize⟩ sec (fs.map encodeFrame).flatten =
      (fs.foldlM env.handleFrame ⟨sec, frames, totalSize, [], []⟩).map fun st =>
        ⟨⟨[], st.frames, st.totalSize⟩, st.sec, st.res, st.calls⟩ := by
  rw [parse_eq, List.nil_append, split_encodeFrames hfs]

end Atf
