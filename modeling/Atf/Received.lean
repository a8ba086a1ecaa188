import Atf.Fragments

/-!
# A frame once it is decrypted

`handleFrame` first decrypts the data of a frame and hands the message table to the frame handler
(`receive`), then puts the message where it belongs (`assemble`). Everything after decryption depends
on the frame only through that message table: a frame whose data is empty or did not decrypt is
returned at once, whatever its type, and only the others reach the reassembly tables
(`Msg.Taken`).
-/

namespace Atf
open Lua

variable {δ J : Type} (env : ParseEnv δ J)

def Msg.key (msg : Msg J) : String := frameKey msg.sessionId msg.messageId

/-- The message table the frame handler is called with. -/
def ParseEnv.receive (sec : δ) (frame : Header × Bytes) : δ × Msg J :=
  let (sec, status, binaryData) := decryptPayload env.security sec frame.2 frame.1
  (sec, { frame.1 with
    binaryData, decryptionStatus := status, rpcType := none, rpcFunctionId := none,
    rpcJsonSize := none, rpcCorrelationId := none, payload := none })

/-- The body of the loop of `Parse` after the call of the frame handler. -/
def ParseEnv.assemble (st : ParseState δ J) (msg : Msg J) : LuaM (ParseState δ J) := do
  if msg.binaryData.length == 0 || msg.decryptionStatus == .ERROR then
    return { st with res := st.res ++ [msg] }
  if msg.frameType == FRAME_TYPE.CONTROL_FRAME then
    return { st with res := st.res ++ [msg] }
  else if msg.frameType == FRAME_TYPE.FIRST_FRAME then
    return { st with
      frames := st.frames.set msg.key [], totalSize := st.totalSize.set msg.key msg.size }
  else if msg.frameType == FRAME_TYPE.SINGLE_FRAME then
    let msg ← env.parseData msg
    return { st with res := st.res ++ [msg] }
  else if msg.frameType == FRAME_TYPE.CONSECUTIVE_FRAME then
    let some collected := st.frames msg.key | .error "attempt to concatenate a nil value"
    let data := collected ++ msg.binaryData
    let some total := st.totalSize msg.key | .error "attempt to perform arithmetic on a nil value"
    let size := total + msg.size
    if msg.frameInfo == LAST_FRAME then
      let delivered ← env.parseData { msg with binaryData := data, size := size }
      return { st with
        frames := (st.frames.set msg.key data).erase msg.key
        totalSize := (st.totalSize.set msg.key size).erase msg.key
        res := st.res ++ [delivered] }
    return { st with frames := st.frames.set msg.key data, totalSize := st.totalSize.set msg.key size }
  return st

/-- The state in which the message of a frame is assembled. -/
def ParseEnv.called (st : ParseState δ J) (frame : Header × Bytes) : ParseState δ J :=
  { st with
    sec := (env.receive st.sec frame).1, calls := st.calls ++ [(env.receive st.sec frame).2] }

theorem handleFrame_eq (st : ParseState δ J) (frame : Header × Bytes) :
    env.handleFrame st frame = env.assemble (env.called st frame) (env.receive st.sec frame).2 := rfl

/-- The data of the frame takes part in what its frame type asks for. -/
structure Msg.Taken (msg : Msg J) : Prop where
  data : msg.binaryData ≠ []
  status : msg.decryptionStatus ≠ .ERROR

instance (msg : Msg J) : Decidable msg.Taken :=
  decidable_of_iff (msg.binaryData ≠ [] ∧ msg.decryptionStatus ≠ .ERROR)
    ⟨fun h => ⟨h.1, h.2⟩, fun h => ⟨h.1, h.2⟩⟩

section Assemble
variable (st : ParseState δ J) {msg : Msg J}

theorem not_taken_iff : ¬ msg.Taken ↔ (msg.binaryData.length == 0 || msg.decryptionStatus == .ERROR) = true := by
  constructor
  · intro h
    by_contra hc
    simp only [Bool.or_eq_true, beq_iff_eq, List.length_eq_zero_iff, not_or] at hc
    exact h ⟨hc.1, hc.2⟩
  · rintro h ⟨hd, hs⟩
    simp [hd, hs] at h

theorem assemble_alone (h : ¬ msg.Taken) : env.assemble st msg = .ok { st with res := st.res ++ [msg] } := by
  unfold ParseEnv.assemble
  rw [not_taken_iff.mp h]
  rfl

variable (h : msg.Taken)
include h

theorem Msg.Taken.guard : (msg.binaryData.length == 0 || msg.decryptionStatus == .ERROR) = false := by
  simp [h.data, h.status]

theorem assemble_control (ht : msg.frameType = FRAME_TYPE.CONTROL_FRAME) :
    env.assemble st msg = .ok { st with res := st.res ++ [msg] } := by
  unfold ParseEnv.assemble
  rw [h.guard, ht]
  rfl

theorem assemble_first (ht : msg.frameType = FRAME_TYPE.FIRST_FRAME) :
    env.assemble st msg = .ok { st with
      frames := st.frames.set msg.key [], totalSize := st.totalSize.set msg.key msg.size } := by
  unfold ParseEnv.assemble
  rw [h.guard, ht]
  rfl

theorem assemble_single (ht : msg.frameType = FRAME_TYPE.SINGLE_FRAME) :
    env.assemble st msg = (env.parseData msg).map fun m => { st with res := st.res ++ [m] } := by
  unfold ParseEnv.assemble
  rw [h.guard, ht]
  cases env.parseData msg <;> rfl

section Consecutive
variable (ht : msg.frameType = FRAME_TYPE.CONSECUTIVE_FRAME)
include ht

theorem assemble_unopened (hf : st.frames msg.key = none) :
    env.assemble st msg = .error "attempt to concatenate a nil value" := by
  unfold ParseEnv.assemble
  rw [h.guard, ht, hf]
  rfl

variable {acc : Bytes} {n : Nat} (hf : st.frames msg.key = some acc) (hn : st.totalSize msg.key = some n)
include hf hn

theorem assemble_more (hi : msg.frameInfo ≠ LAST_FRAME) :
    env.assemble st msg = .ok { st with
      frames := st.frames.set msg.key (acc ++ msg.binaryData)
      totalSize := st.totalSize.set msg.key (n + msg.size) } := by
  have hi' : (msg.frameInfo == LAST_FRAME) = false := by simp [hi]
  unfold ParseEnv.assemble
  rw [h.guard, ht, hf, hn, hi']
  rfl

theorem assemble_last (hi : msg.frameInfo = LAST_FRAME) :
    env.assemble st msg =
      (env.parseData { msg with binaryData := acc ++ msg.binaryData, size := n + msg.size }).map fun m =>
        { st with
          frames := st.frames.erase msg.key, totalSize := st.totalSize.erase msg.key
          res := st.res ++ [m] } := by
  unfold ParseEnv.assemble
  rw [h.guard, ht, hf, hn, hi]
  simp only [Table.erase_set]
  cases env.parseData { msg with binaryData := acc ++ msg.binaryData, size := n + msg.size } <;> rfl

end Consecutive

/-- A frame of a type the protocol does not know is dropped. -/
theorem assemble_unknown (ht : FRAME_TYPE.CONSECUTIVE_FRAME < msg.frameType) : env.assemble st msg = .ok st := by
  have hne : ∀ t ≤ FRAME_TYPE.CONSECUTIVE_FRAME, (msg.frameType == t) = false := by
    intro t hle
    simp only [beq_eq_false_iff_ne]
    omega
  unfold ParseEnv.assemble
  rw [h.guard, hne FRAME_TYPE.CONTROL_FRAME (by decide), hne FRAME_TYPE.FIRST_FRAME (by decide),
    hne FRAME_TYPE.SINGLE_FRAME (by decide), hne FRAME_TYPE.CONSECUTIVE_FRAME (by decide)]
  rfl

end Assemble

end Atf
