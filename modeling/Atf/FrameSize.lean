import Atf.Wire

/-!
# The size of the frames of `Compose`

`GetBinaryFrame` compares the data with the payload limit of the protocol version and encrypts it after
that, so a frame is longer than `FRAME_SIZE` as soon as encryption makes its data longer than the limit.
The pieces into which `Compose` cuts long data are as long as the limit allows, and the header has the
size that is reserved for it; nothing else can go wrong.
-/

namespace Atf
open Lua

variable {δ : Type}

/-! ### The data that is encrypted -/

/-- The data of the message when it is cut into frames. -/
def outgoingData (message : OutMsg) : LuaM (Option Bytes) :=
  if hasToBuildBinaryHeader message then (rpcPayload message).map some else .ok message.binaryData

/-- The pieces that the loop of `Compose` takes off the data. -/
def dataParts (max : Nat) : Nat → Bytes → List Bytes
  | 0, _ => []
  | fuel + 1, data => if data.length > 0 then data.take max :: dataParts max fuel (data.drop max) else []

/-- What `encrypt` makes of the pieces one after another, as far as it succeeds. -/
def ciphertexts (security : Security δ) (sessionId serviceType : Nat) : δ → List Bytes → List Bytes
  | _, [] => []
  | sec, part :: parts =>
    match security.encrypt sec part sessionId serviceType with
    | .ok (sec, some encryptedData) => encryptedData :: ciphertexts security sessionId serviceType sec parts
    | _ => []

/-- The pieces of the message that are encrypted: only a control frame that starts a service is sent in
clear, unless its data has to be cut. -/
def encryptedParts (max : Nat) (message : OutMsg) (data : Bytes) : List Bytes :=
  if !message.encryption then []
  else if data.length > max then dataParts max data.length data
  else if isStartService message then []
  else [data]

/-- No encrypted piece of the data of `message` is longer than the limit. -/
def PartsFit (security : Security δ) (sec : δ) (max : Nat) (message : OutMsg) (data : Bytes) : Prop :=
  ∀ c ∈ ciphertexts security message.sessionId message.serviceType sec (encryptedParts max message data),
    c.length ≤ max

/-! ### One frame -/

theorem encryptPayload_spec {security : Security δ} {sec sec' : δ} {data res : Bytes} {message : OutMsg}
    (h : encryptPayload security sec data message = .ok (sec', res)) :
    ((message.encryption && !isStartService message) = true ∧
        security.encrypt sec data message.sessionId message.serviceType = .ok (sec', some res)) ∨
      ((message.encryption && !isStartService message) = false ∧ sec' = sec ∧ res = data) := by
  unfold encryptPayload at h
  split at h
  · rename_i henc
    obtain ⟨⟨sec₁, encrypted⟩, hcall, h⟩ := bind_eq_ok.mp h
    cases encrypted with
    | none => cases h
    | some encrypted =>
      cases h
      exact .inl ⟨henc, hcall⟩
  · rename_i henc
    cases h
    exact .inr ⟨Bool.eq_false_iff.mpr henc, rfl, rfl⟩

/-- A frame is the header and the payload; the limit was checked before the encryption. -/
theorem getBinaryFrame_length {security : Security δ} {sec sec' : δ} {message message' : OutMsg} {frame : Bytes}
    {max : Nat} (h : getBinaryFrame security sec message = .ok (sec', frame, message'))
    (hmax : maxPayloadSize message.version = .ok max) :
    (message.binaryData = none ∧ frame.length = PROTOCOL_HEADER_SIZE) ∨
      ∃ data payload, message.binaryData = some data ∧ data.length ≤ max ∧
        encryptPayload security sec data message = .ok (sec', payload) ∧
        frame.length = PROTOCOL_HEADER_SIZE + payload.length := by
  unfold getBinaryFrame at h
  rw [hmax] at h
  obtain ⟨_, ⟨⟩, h⟩ := bind_eq_ok.mp h
  dsimp only at h
  split at h
  · rename_i data hdata
    split at h
    · obtain ⟨_, herr, -⟩ := bind_eq_ok.mp h
      cases herr
    · rename_i hle
      obtain ⟨⟨sec₁, payload⟩, hpayload, h⟩ := bind_eq_ok.mp h
      obtain ⟨header, hheader, h⟩ := bind_eq_ok.mp h
      cases h
      refine .inr ⟨data, payload, hdata, by omega, hpayload, ?_⟩
      rw [List.length_append, length_createProtocolHeader hheader]
  · rename_i hdata
    obtain ⟨_, ⟨⟩, h⟩ := bind_eq_ok.mp h
    obtain ⟨header, hheader, h⟩ := bind_eq_ok.mp h
    cases h
    refine .inl ⟨hdata, ?_⟩
    rw [List.append_nil, length_createProtocolHeader hheader]

/-! ### The data frames -/

theorem consecutive_encrypts (message : OutMsg) (info : Nat) (part : Bytes) :
    ((consecutiveFrameMessage message info part).encryption &&
      !isStartService (consecutiveFrameMessage message info part)) = message.encryption := by
  show (message.encryption && true) = message.encryption
  exact Bool.and_true _

/-- The frames of the loop are within the limit exactly if the encrypted pieces are. -/
theorem consecutiveFrames_length_iff {security : Security δ} {message : OutMsg} {max : Nat}
    (hmax : maxPayloadSize message.version = .ok max) (fuel : Nat) {sec sec' : δ} {count count' : Nat}
    {data : Bytes} {frames : List Bytes}
    (h : consecutiveFrames security message max fuel sec count data = .ok (sec', count', frames)) :
    (∀ f ∈ frames, f.length ≤ PROTOCOL_HEADER_SIZE + max) ↔
      (message.encryption = true →
        ∀ c ∈ ciphertexts security message.sessionId message.serviceType sec (dataParts max fuel data),
          c.length ≤ max) := by
  induction fuel generalizing sec count data frames with
  | zero =>
    cases h
    simp [dataParts, ciphertexts]
  | succ fuel ih =>
    unfold consecutiveFrames at h
    unfold dataParts
    split at h
    · rename_i hpos
      rw [if_pos hpos]
      obtain ⟨⟨sec₁, frame, message₁⟩, hframe, h⟩ := bind_eq_ok.mp h
      obtain ⟨⟨sec₂, count₂, rest⟩, hrest, h⟩ := bind_eq_ok.mp h
      cases h
      have hih := ih hrest
      obtain ⟨hnone, -⟩ | ⟨part, payload, hpart, hle, henc, hlen⟩ := getBinaryFrame_length hframe hmax
      · cases hnone
      · cases hpart
        rw [List.forall_mem_cons, hih, hlen, Nat.add_le_add_iff_left]
        obtain ⟨hon, hcall⟩ | ⟨hoff, rfl, rfl⟩ := encryptPayload_spec henc
        · rw [consecutive_encrypts] at hon
          have hcall : security.encrypt sec (data.take max) message.sessionId message.serviceType =
            .ok (sec₁, some payload) := hcall
          rw [ciphertexts, hcall]
          simp only [hon, true_imp_iff, List.forall_mem_cons]
          exact Iff.rfl
        · rw [consecutive_encrypts] at hoff
          simp only [hoff, Bool.false_eq_true, false_imp_iff, and_true, iff_true]
          exact hle
    · rename_i hpos
      cases h
      simp [ciphertexts, hpos]

/-! ### `Compose` -/

theorem firstFrame_length {security : Security δ} {sec sec' : δ} {message message' : OutMsg} {data frame : Bytes}
    {max : Nat} (h : getBinaryFrame security sec (firstFrameMessage message data) = .ok (sec', frame, message'))
    (hmax : maxPayloadSize message.version = .ok max) : frame.length ≤ PROTOCOL_HEADER_SIZE + max := by
  obtain ⟨hnone, -⟩ | ⟨part, payload, hpart, hle, henc, hlen⟩ := getBinaryFrame_length h hmax
  · cases hnone
  · obtain ⟨hon, -⟩ | ⟨-, -, rfl⟩ := encryptPayload_spec henc
    · cases hon
    · rw [hlen]
      exact Nat.add_le_add_left hle _

theorem encryptedParts_short {max : Nat} (message : OutMsg) {data : Bytes} (h : data.length ≤ max) :
    encryptedParts max message data = if message.encryption && !isStartService message then [data] else [] := by
  have hshort : ¬ data.length > max := Nat.not_lt.mpr h
  unfold encryptedParts
  rw [if_neg hshort]
  cases message.encryption <;> cases isStartService message <;> rfl

theorem encryptedParts_long {max : Nat} (message : OutMsg) {data : Bytes} (h : data.length > max) :
    encryptedParts max message data = if message.encryption then dataParts max data.length data else [] := by
  unfold encryptedParts
  rw [if_pos h]
  cases message.encryption <;> rfl

theorem singleFrame_length_iff {security : Security δ} {sec sec' : δ} {message message' : OutMsg} {frame : Bytes}
    {max : Nat} (h : getBinaryFrame security sec message = .ok (sec', frame, message'))
    (hmax : maxPayloadSize message.version = .ok max) :
    frame.length ≤ PROTOCOL_HEADER_SIZE + max ↔
      ∀ data, message.binaryData = some data → PartsFit security sec max message data := by
  obtain ⟨hnone, hlen⟩ | ⟨data, payload, hdata, hle, henc, hlen⟩ := getBinaryFrame_length h hmax
  · refine iff_of_true (by omega) fun data hdata => ?_
    rw [hnone] at hdata
    cases hdata
  · rw [hlen, Nat.add_le_add_iff_left, hdata]
    simp only [Option.some.injEq, forall_eq', PartsFit, encryptedParts_short message hle]
    obtain ⟨hon, hcall⟩ | ⟨hoff, -, rfl⟩ := encryptPayload_spec henc
    · rw [if_pos hon, ciphertexts, hcall]
      simp [ciphertexts]
    · rw [if_neg (by rw [hoff]; exact Bool.false_ne_true)]
      simpa [ciphertexts] using hle

theorem composeData_length_iff {security : Security δ} {sec sec' : δ} {message message' : OutMsg}
    {frames : List Bytes} {max : Nat} (h : composeData security sec max message = .ok (sec', frames, message'))
    (hmax : maxPayloadSize message.version = .ok max) :
    (∀ f ∈ frames, f.length ≤ PROTOCOL_HEADER_SIZE + max) ↔
      ∀ data, message.binaryData = some data → PartsFit security sec max message data := by
  have single : ∀ {sec' frame message'}, getBinaryFrame security sec message = .ok (sec', frame, message') →
      ((∀ f ∈ [frame], f.length ≤ PROTOCOL_HEADER_SIZE + max) ↔
        ∀ data, message.binaryData = some data → PartsFit security sec max message data) := by
    intro sec' frame message' hframe
    rw [List.forall_mem_singleton]
    exact singleFrame_length_iff hframe hmax
  unfold composeData at h
  split at h
  · rename_i data hdata
    split at h
    · rename_i hlong
      obtain ⟨⟨sec₁, count, rest⟩, hrest, h⟩ := bind_eq_ok.mp h
      obtain ⟨total, -, h⟩ := bind_eq_ok.mp h
      obtain ⟨count', -, h⟩ := bind_eq_ok.mp h
      obtain ⟨⟨sec₂, first, message₂⟩, hfirst, h⟩ := bind_eq_ok.mp h
      cases h
      rw [List.forall_mem_cons, consecutiveFrames_length_iff hmax data.length hrest, hdata]
      simp only [Option.some.injEq, forall_eq', PartsFit, encryptedParts_long message hlong]
      have hhead := firstFrame_length hfirst hmax
      cases message.encryption <;> simp [hhead, ciphertexts]
    · obtain ⟨⟨sec₁, frame, message₁⟩, hframe, h⟩ := bind_eq_ok.mp h
      cases h
      exact single hframe
  · obtain ⟨⟨sec₁, frame, message₁⟩, hframe, h⟩ := bind_eq_ok.mp h
    cases h
    exact single hframe

/-- Every frame is within the limit of its protocol version exactly if no encrypted piece of data is longer
than the payload limit. -/
theorem compose_frame_size_iff (security : Security δ) (sec sec' : δ) (message message' : OutMsg)
    (frames : List Bytes) (size : Nat) (hsize : FRAME_SIZE message.version = some size)
    (h : compose security sec message = .ok (sec', frames, message')) :
    (∀ f ∈ frames, f.length ≤ size) ↔
      ∀ data, outgoingData message = .ok (some data) →
        PartsFit security sec (size - PROTOCOL_HEADER_SIZE) message data := by
  have hmax : maxPayloadSize message.version = .ok (size - PROTOCOL_HEADER_SIZE) := by
    rw [maxPayloadSize, getProtocolFrameSize, hsize]
  have hroom : size = PROTOCOL_HEADER_SIZE + (size - PROTOCOL_HEADER_SIZE) := by
    have : PROTOCOL_HEADER_SIZE ≤ size := by
      unfold FRAME_SIZE at hsize
      split at hsize <;> cases hsize <;> decide
    omega
  rw [compose, hmax] at h
  obtain ⟨_, ⟨⟩, h⟩ := bind_eq_ok.mp h
  rw [outgoingData]
  split at h
  · rename_i hbuild
    obtain ⟨data, hdata, h⟩ := bind_eq_ok.mp h
    rw [if_pos hbuild, hdata]
    have hiff := composeData_length_iff h hmax
    rw [← hroom] at hiff
    rw [hiff]
    exact ⟨fun hall d hd => by cases hd; exact hall data rfl, fun hall d hd => by cases hd; exact hall data rfl⟩
  · rename_i hbuild
    rw [if_neg hbuild]
    have hiff := composeData_length_iff h hmax
    rw [← hroom] at hiff
    rw [hiff]
    simp only [Except.ok.injEq]

/-- A security layer that adds 29 bytes to each record, as TLS does with AES-GCM. -/
def recordSecurity : Security Unit where
  decrypt := fun _ data _ _ _ => ((), some data)
  encrypt := fun _ data _ _ => .ok ((), some (data ++ List.replicate 29 0))

/-- A single frame of the video service, encrypted, for protocol version 2. -/
def videoMessage (data : Bytes) : OutMsg :=
  { version := 2, encryption := true, frameType := FRAME_TYPE.SINGLE_FRAME, serviceType := SERVICE_TYPE.VIDEO
    frameInfo := 0, sessionId := 1, messageId := 1, rpcType := none, rpcFunctionId := none
    rpcCorrelationId := none, payload := none, binaryData := some data }

theorem compose_frame_size_short :
    ∃ frames message', compose recordSecurity () (videoMessage [1, 2, 3]) = .ok ((), frames, message') ∧
      ∀ f ∈ frames, f.length ≤ 1500 := by
  refine ⟨_, _, rfl, ?_⟩
  refine (compose_frame_size_iff recordSecurity () () (videoMessage [1, 2, 3]) _ _ 1500 rfl rfl).mpr ?_
  intro data hdata
  cases hdata
  show ∀ c ∈ [([1, 2, 3] ++ List.replicate 29 0 : Bytes)], c.length ≤ 1488
  simp

/-- Data as long as the payload limit allows: the frame is 29 bytes too long. -/
theorem compose_frame_too_long :
    (compose recordSecurity () (videoMessage (List.replicate 1488 0))).map (fun r => r.2.1.map List.length) =
        .ok [1529] ∧ FRAME_SIZE 2 = some 1500 := by
  constructor
  · decide +kernel
  · rfl

end Atf
