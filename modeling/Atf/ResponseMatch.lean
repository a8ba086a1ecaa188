import Atf.CorrelationIds
import Atf.FrameSize
import Atf.ParseChunks
import Atf.Received

/-!
# Matching a response by its correlation id (`protocol_handler.lua`, `rpc_service.lua`)

The correlation id of a message stands in bytes 5 to 8 of its data. `rpcPayload` writes every id modulo `2 ^ 32`
there, so that a request may use any unsigned word; `parseBinaryHeader` reads the word as a signed number. The event
of `ExpectResponse` compares that number with the id it was given, without a conversion: the ids of the upper half of
the words come back negative, and their responses are not matched.
-/

namespace Atf
open Lua

variable {δ J : Type}

/-! ### The correlation id in the data -/

def correlationBytes (data : Bytes) : Bytes := (data.drop 4).take 4

theorem norm_uint32ToInt32 (c : Int) : Bit32.norm (uint32ToInt32 c) = Bit32.norm c := by
  unfold uint32ToInt32 Bit32.norm
  split <;> omega

theorem uint32ToInt32_eq_iff {c : Int} (h0 : 0 ≤ c) (h : c < 2 ^ 32) :
    uint32ToInt32 (Bit32.norm c) = c ↔ c < 2 ^ 31 := by
  unfold uint32ToInt32 Bit32.norm
  split <;> omega

/-- What `rpcPayload` writes, for every id. -/
theorem correlationBytes_rpcPayload {m : OutMsg} {data : Bytes} (h : rpcPayload m = .ok data) :
    correlationBytes data = be32 (Bit32.norm (m.rpcCorrelationId.getD 0)) := by
  obtain ⟨rpcType, -, h⟩ := bind_eq_ok.mp h
  obtain ⟨rpcFunctionId, -, h⟩ := bind_eq_ok.mp h
  obtain ⟨res, hres, h⟩ := bind_eq_ok.mp h
  obtain ⟨correlationId, hid, h⟩ := bind_eq_ok.mp h
  obtain ⟨jsonSize, hsize, h⟩ := bind_eq_ok.mp h
  cases h
  rw [int32ToBytes_eq, norm_uint32ToInt32] at hid
  cases hid
  have hlen : res.length = 4 := length_of_char hres
  rw [correlationBytes, List.append_assoc, List.append_assoc, List.append_assoc, List.drop_left' hlen,
    List.take_left' (length_be32 _)]

/-- What `parseBinaryHeader` reads there. -/
theorem bytesToInt32_correlationBytes {data : Bytes} {n : Nat} (hn : n < 2 ^ 32)
    (h : correlationBytes data = be32 n) : bytesToInt32 data 5 = .ok n := by
  have hlen : 8 ≤ data.length := by
    have := congrArg List.length h
    rw [correlationBytes, List.length_take, List.length_drop, length_be32] at this
    omega
  refine bytesToInt32_be32 (data.take 4) (data.drop 8) hn ?_ (by rw [List.length_take]; omega)
  rw [← h, correlationBytes, List.append_assoc, show data.drop 8 = (data.drop 4).drop 4 by rw [List.drop_drop],
    List.take_append_drop, List.take_append_drop]

/-! ### The completed message -/

/-- The message whose data `Parse` reads when it has this frame, decrypted: that of a single frame, or of all frames
up to the last one. -/
def completed (st : ParseState δ J) (msg : Msg J) : Option (Msg J) :=
  if ¬ msg.Taken then none
  else if msg.frameType = FRAME_TYPE.SINGLE_FRAME then some msg
  else if msg.frameType = FRAME_TYPE.CONSECUTIVE_FRAME ∧ msg.frameInfo = LAST_FRAME then
    match st.frames msg.key, st.totalSize msg.key with
    | some collected, some total =>
      some { msg with binaryData := collected ++ msg.binaryData, size := total + msg.size }
    | _, _ => none
  else none

theorem assemble_completed {env : ParseEnv δ J} {st st' : ParseState δ J} {msg whole : Msg J}
    (h : completed st msg = some whole) (hok : env.assemble st msg = .ok st') :
    ∃ m, env.parseData whole = .ok m ∧ st'.res = st.res ++ [m] := by
  unfold completed at h
  split at h
  · cases h
  · rename_i htaken
    rw [not_not] at htaken
    split at h
    · rename_i hsingle
      cases h
      rw [assemble_single env st htaken hsingle] at hok
      obtain ⟨m, hm, rfl⟩ := map_eq_ok.mp hok
      exact ⟨m, hm, rfl⟩
    · split at h
      · rename_i hlast
        split at h
        · rename_i collected total hf hn
          cases h
          rw [assemble_last env st htaken hlast.1 hf hn hlast.2] at hok
          obtain ⟨m, hm, rfl⟩ := map_eq_ok.mp hok
          exact ⟨m, hm, rfl⟩
        · cases h
      · cases h

/-- A message of the session that is a response under the correlation id of this data. -/
structure RespondsTo (whole : Msg J) (sessionId : Nat) (request : Bytes) : Prop where
  session : whole.sessionId = sessionId
  service : whole.serviceType = SERVICE_TYPE.RPC
  rpcType : (byte whole.binaryData 1).map (· / 16) = some BINARY_RPC_TYPE.RESPONSE
  id : correlationBytes whole.binaryData = correlationBytes request

theorem rshift_byte {data : Bytes} {i n : Nat} (h : number (byte data i) = .ok n) :
    byte data i = some n ∧ Bit32.rshift n 4 = n / 16 := by
  cases hbyte : byte data i with
  | none =>
    rw [hbyte] at h
    cases h
  | some b =>
    rw [hbyte] at h
    cases h
    obtain ⟨x, -, rfl⟩ := Option.map_eq_some_iff.mp hbyte
    have hlt := x.toNat_lt
    rw [Bit32.rshift, Bit32.norm_of_lt (by omega), Nat.shiftRight_eq_div_pow]
    exact ⟨rfl, rfl⟩

theorem parseData_response {env : ParseEnv δ J} {whole m : Msg J} {n : Nat}
    (hservice : whole.serviceType = SERVICE_TYPE.RPC)
    (hn : n < 2 ^ 32) (hid : correlationBytes whole.binaryData = be32 n) (h : env.parseData whole = .ok m) :
    m.sessionId = whole.sessionId ∧ m.rpcType = (byte whole.binaryData 1).map (· / 16) ∧
      m.rpcCorrelationId = some (uint32ToInt32 n) := by
  have hheader : isBinaryDataHasHeader whole.serviceType = true := by rw [hservice]; rfl
  rw [ParseEnv.parseData, if_pos hheader] at h
  obtain ⟨byte1, hbyte, h⟩ := bind_eq_ok.mp h
  obtain ⟨word1, -, h⟩ := bind_eq_ok.mp h
  obtain ⟨rpcJsonSize, -, h⟩ := bind_eq_ok.mp h
  rw [hservice] at h
  obtain ⟨correlationId, hcor, h⟩ := bind_eq_ok.mp h
  rw [bytesToInt32_correlationBytes hn hid] at hcor
  cases hcor
  cases h
  obtain ⟨hsome, hshift⟩ := rshift_byte hbyte
  refine ⟨rfl, ?_, rfl⟩
  dsimp only
  rw [hsome, hshift, Option.map_some]

/-! ### The event -/

theorem matchesData_iff {s s' : RpcSession} {env : RpcEnv} {c : Int} {args : List Value} {ret : RpcExpectation}
    (h : s.expectResponse env (.number c) args = .ok (s', ret)) (sessionId : Nat) (data : Msg Value) :
    ret.matchesData sessionId data = true ↔
      data.rpcCorrelationId = some c ∧ data.sessionId = sessionId ∧ data.rpcType = some BINARY_RPC_TYPE.RESPONSE := by
  obtain ⟨⟨s₁, base⟩, hbase, h⟩ := map_eq_ok.mp h
  cases h
  have hids : (s.lookupResponse (.number c)).2.1 = [c] := (s.lookupResponse_number c).1
  have hmatches : base.matchesData = fun sessionId data => [c].any fun v =>
      data.rpcCorrelationId == some v && data.sessionId == sessionId &&
        data.rpcType == some BINARY_RPC_TYPE.RESPONSE := by
    unfold RpcSession.baseExpectResponse at hbase
    split at hbase
    rename_i func_name ids s₂ hlookup
    rw [hlookup] at hids
    dsimp only at hids
    subst hids
    cases hbase
    split
    · rfl
    · rfl
  show base.matchesData sessionId data = true ↔ _
  rw [hmatches]
  simp [and_assoc]

/-! ### Responses that `Parse` returns -/

/-- Further frames only add messages. -/
theorem foldlM_handleFrame_res {env : ParseEnv δ J} {frames : List (Header × Bytes)} {st st' : ParseState δ J}
    (h : frames.foldlM env.handleFrame st = .ok st') : ∃ rest, st'.res = st.res ++ rest := by
  have hpre : st = (⟨st.sec, st.frames, st.totalSize, [], []⟩ : ParseState δ J).prepend st.res st.calls := by
    simp [ParseState.prepend]
  rw [hpre, foldlM_handleFrame_append] at h
  obtain ⟨st₁, -, rfl⟩ := map_eq_ok.mp h
  exact ⟨st₁.res, rfl⟩

/-- A request with the id `c` was packed by `Compose` as `sent`, and a frame completes a response of the session with
the same four bytes. The message that `Parse` returns for it is matched by the event of `ExpectResponse(c)` exactly if
`c` is in the lower half of the words. -/
theorem response_matched_iff (env : ParseEnv δ Value) (rpcEnv : RpcEnv) {request : OutMsg} {sent : Bytes} {c : Int}
    (h0 : 0 ≤ c) (hc : c < 2 ^ 32) (hid : request.rpcCorrelationId = some c)
    (hrpc : hasToBuildBinaryHeader request = true) (hsent : outgoingData request = .ok (some sent))
    {s s' : RpcSession} {args : List Value} {ret : RpcExpectation}
    (hexpect : s.expectResponse rpcEnv (.number c) args = .ok (s', ret))
    {self : ProtocolHandler} {sec : δ} {binary : Bytes} {p : Parsed δ Value} {before after : List (Header × Bytes)}
    {frame : Header × Bytes} {st : ParseState δ Value} {whole : Msg Value}
    (hparse : env.parse self sec binary = .ok p)
    (hframes : (wire.split (self.buffer ++ binary)).1 = before ++ frame :: after)
    (hbefore : before.foldlM env.handleFrame ⟨sec, self.frames, self.totalSize, [], []⟩ = .ok st)
    (hwhole : completed st (env.receive st.sec frame).2 = some whole) (hresponse : RespondsTo whole s'.sessionId sent) :
    ∃ msg rest, p.res = st.res ++ msg :: rest ∧ (ret.matchesData s'.sessionId msg = true ↔ c < 2 ^ 31) := by
  rw [outgoingData, if_pos hrpc] at hsent
  obtain ⟨data, hpayload, hdata⟩ := map_eq_ok.mp hsent
  cases hdata
  have hbytes := hresponse.id.trans (correlationBytes_rpcPayload hpayload)
  rw [hid, Option.getD_some] at hbytes
  rw [parse_eq, hframes] at hparse
  obtain ⟨final, hfold, rfl⟩ := map_eq_ok.mp hparse
  rw [List.foldlM_append] at hfold
  obtain ⟨st₁, hst₁, hfold⟩ := bind_eq_ok.mp hfold
  rw [hbefore] at hst₁
  cases hst₁
  rw [List.foldlM_cons] at hfold
  obtain ⟨st₂, hframe, hafter⟩ := bind_eq_ok.mp hfold
  obtain ⟨rest, hrest⟩ := foldlM_handleFrame_res hafter
  rw [handleFrame_eq] at hframe
  have hcalled : completed (env.called st frame) (env.receive st.sec frame).2 = some whole := hwhole
  obtain ⟨m, hm, hres⟩ := assemble_completed hcalled hframe
  obtain ⟨hsession, htype, hcor⟩ := parseData_response hresponse.service (Bit32.norm_lt c) hbytes hm
  refine ⟨m, rest, ?_, ?_⟩
  · dsimp only
    rw [hrest, hres, List.append_assoc]
    rfl
  · rw [matchesData_iff hexpect, hsession, htype, hcor, Option.some_inj, uint32ToInt32_eq_iff h0 hc]
    exact and_iff_left ⟨hresponse.session, hresponse.rpcType⟩

namespace ResponseSample
open RpcSample

def parseEnv : ParseEnv Unit Value :=
  { security := ⟨fun _ _ _ _ _ => ((), none), fun _ _ _ _ => .error "not registered"⟩, decode := fun _ => none
    validateJson := false }

def request (c : Int) : OutMsg :=
  { version := 2, encryption := false, frameType := 1, serviceType := SERVICE_TYPE.RPC, frameInfo := 0, sessionId := 1
    messageId := 1, rpcType := some BINARY_RPC_TYPE.REQUEST, rpcFunctionId := some 13, rpcCorrelationId := some c
    payload := some [], binaryData := none }

/-- The data of a message without a payload, with this type and correlation id. -/
def rpcBytes (rpcType : UInt8) (c : Nat) : Bytes := [rpcType * 16, 0, 0, 13] ++ be32 c ++ [0, 0, 0, 0]

/-- A response to `Show` on the session. -/
def response (c : Nat) : Header × Bytes :=
  ({ version := 2, frameType := FRAME_TYPE.SINGLE_FRAME, encryption := false, serviceType := SERVICE_TYPE.RPC
     frameInfo := 0, sessionId := 1, size := 12, messageId := 1 }, rpcBytes 1 c)

end ResponseSample

open RpcSample ResponseSample in
/-- A response with the id 5. -/
theorem response_matched_iff_five :
    ∃ s' ret p msg, session.expectResponse mobileEnv (.number 5) [] = .ok (s', ret) ∧
      parseEnv.parse .new () (encodeFrame (response 5)) = .ok p ∧ msg ∈ p.res ∧
      ret.matchesData s'.sessionId msg = true := by
  have hok : (parseEnv.parse .new () (encodeFrame (response 5))).isOk = true := by decide +kernel
  cases hparse : parseEnv.parse .new () (encodeFrame (response 5)) with
  | error e =>
    rw [hparse] at hok
    cases hok
  | ok p =>
    have hwf : ∀ f ∈ [response 5], WellFormed f := by
      intro f hf
      rw [List.mem_singleton.mp hf]
      exact ⟨by decide, by decide, by decide, by decide, by decide, by decide, rfl, by decide⟩
    have hsplit : (wire.split (ProtocolHandler.new.buffer ++ encodeFrame (response 5))).1 = [] ++ response 5 :: [] := by
      have := split_encodeFrames hwf
      rw [List.map_singleton, List.flatten_singleton] at this
      exact congrArg Prod.fst this
    have hresponse : RespondsTo (parseEnv.receive () (response 5)).2 1 (rpcBytes 0 5) :=
      ⟨rfl, rfl, by decide +kernel, by decide +kernel⟩
    have hrpc : hasToBuildBinaryHeader (request 5) = true := rfl
    have hsent : outgoingData (request 5) = .ok (some (rpcBytes 0 5)) := by decide +kernel
    have hexpect : session.expectResponse mobileEnv (.number 5) [] = .ok (_, _) := rfl
    obtain ⟨msg, rest, hres, hiff⟩ :=
      response_matched_iff parseEnv mobileEnv (by decide) (by decide) rfl hrpc hsent hexpect
      hparse hsplit rfl rfl hresponse
    refine ⟨_, _, p, msg, rfl, rfl, ?_, hiff.mpr (by decide)⟩
    rw [hres]
    exact List.mem_append_right _ List.mem_cons_self

open RpcSample ResponseSample in
/-- The request encodes the id `2 ^ 31`, and the response with the same bytes is not matched. -/
theorem upper_half_not_matched :
    rpcPayload (request (2 ^ 31)) = .ok (rpcBytes 0 (2 ^ 31)) ∧
      ((session.expectResponse mobileEnv (.number (2 ^ 31)) []).bind fun r =>
        (parseEnv.parse .new () (encodeFrame (response (2 ^ 31)))).map fun p =>
          p.res.map fun msg => (msg.rpcCorrelationId, r.2.matchesData r.1.sessionId msg)) =
      .ok [(some (-2 ^ 31), false)] := by
  constructor
  · decide +kernel
  · decide +kernel

end Atf
