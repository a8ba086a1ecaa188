import Atf.Wire
import Mathlib.Data.List.Basic

/-!
# What `Parse` does with each kind of frame

`handleFrame` has four outcomes for an unencrypted frame with data: a first frame opens the entry of
its message in the tables, a consecutive frame extends it, the last consecutive frame closes it and
returns the message, and a single or control frame returns a message and leaves the tables alone.
`Fragmented` is a message cut into frames; `parse_fragmented` is what it yields on a fresh handler.
-/

namespace Atf
open Lua

variable {δ J : Type} (env : ParseEnv δ J)

/-! ### Keys -/

theorem frameKey_inj {s m s' m' : Nat} (h : frameKey s m = frameKey s' m') : s = s' ∧ m = m' := by
  have hm : ∀ n : Nat, 'm' ∉ Nat.toDigits 10 n := fun n hn =>
    absurd (Nat.isDigit_of_mem_toDigits (by decide) (by decide) hn) (by decide)
  have hl := congrArg String.toList h
  have hs : ∀ a b : Nat, (frameKey a b).toList = 's' :: (Nat.toDigits 10 a ++ 'm' :: Nat.toDigits 10 b) := by
    intro a b
    simp only [frameKey, String.toList_append, toString, Nat.repr_eq_ofList_toDigits, String.toList_ofList]
    simp
  rw [hs, hs, List.cons.injEq] at hl
  obtain ⟨h1, -, h2⟩ := (List.append_cons_inj_of_notMem (hm s) (hm m)).mp hl.2
  have hrepr : ∀ a b : Nat, Nat.toDigits 10 a = Nat.toDigits 10 b → a = b := by
    intro a b hab
    rw [← Nat.ofDigitChars_ten_toDigits (n := a), hab, Nat.ofDigitChars_ten_toDigits]
  exact ⟨hrepr _ _ h1, hrepr _ _ h2⟩

def keyOf (f : Header × Bytes) : String := frameKey f.1.sessionId f.1.messageId

/-! ### One frame -/

/-- The message table of an unencrypted frame, before the binary header is read. -/
def plainMsg (f : Header × Bytes) : Msg J :=
  { f.1 with
    binaryData := f.2, decryptionStatus := .NO_ENCRYPTION, rpcType := none, rpcFunctionId := none
    rpcJsonSize := none, rpcCorrelationId := none, payload := none }

variable {f : Header × Bytes} (st : ParseState δ J)

theorem handleFrame_first (he : f.1.encryption = false) (hd : f.2 ≠ [])
    (ht : f.1.frameType = FRAME_TYPE.FIRST_FRAME) :
    env.handleFrame st f = .ok { st with
      frames := st.frames.set (keyOf f) [], totalSize := st.totalSize.set (keyOf f) f.1.size
      calls := st.calls ++ [plainMsg f] } := by
  simp [ParseEnv.handleFrame, decryptPayload, he, hd, ht, FRAME_TYPE.CONTROL_FRAME,
    FRAME_TYPE.FIRST_FRAME, pure, Except.pure, keyOf, plainMsg]

theorem handleFrame_single (he : f.1.encryption = false) (hd : f.2 ≠ [])
    (ht : f.1.frameType = FRAME_TYPE.SINGLE_FRAME) :
    env.handleFrame st f = (env.parseData (plainMsg f)).map fun msg =>
      { st with res := st.res ++ [msg], calls := st.calls ++ [plainMsg f] } := by
  simp only [ParseEnv.handleFrame, decryptPayload, he, ht, FRAME_TYPE.CONTROL_FRAME, FRAME_TYPE.FIRST_FRAME,
    FRAME_TYPE.SINGLE_FRAME, bind, Except.bind, pure, Except.pure, plainMsg]
  simp [hd]
  cases env.parseData _ <;> rfl

section Consecutive
variable {acc : Bytes} {n : Nat} (he : f.1.encryption = false) (hd : f.2 ≠ [])
  (ht : f.1.frameType = FRAME_TYPE.CONSECUTIVE_FRAME) (hf : st.frames (keyOf f) = some acc)
  (hn : st.totalSize (keyOf f) = some n)
include he hd ht hf hn

theorem handleFrame_more (hi : f.1.frameInfo ≠ LAST_FRAME) :
    env.handleFrame st f = .ok { st with
      frames := st.frames.set (keyOf f) (acc ++ f.2)
      totalSize := st.totalSize.set (keyOf f) (n + f.1.size)
      calls := st.calls ++ [plainMsg f] } := by
  unfold keyOf at hf hn
  simp [ParseEnv.handleFrame, decryptPayload, he, hd, ht, hf, hn, hi, FRAME_TYPE.CONTROL_FRAME,
    FRAME_TYPE.FIRST_FRAME, FRAME_TYPE.SINGLE_FRAME, FRAME_TYPE.CONSECUTIVE_FRAME, pure, Except.pure,
    keyOf, plainMsg]

theorem handleFrame_last (hi : f.1.frameInfo = LAST_FRAME) :
    env.handleFrame st f =
      (env.parseData { plainMsg f with binaryData := acc ++ f.2, size := n + f.1.size }).map fun msg =>
        { st with
          frames := st.frames.erase (keyOf f), totalSize := st.totalSize.erase (keyOf f)
          res := st.res ++ [msg], calls := st.calls ++ [plainMsg f] } := by
  unfold keyOf at hf hn
  simp only [ParseEnv.handleFrame, decryptPayload, he, ht, hf, hn, hi, FRAME_TYPE.CONTROL_FRAME,
    FRAME_TYPE.FIRST_FRAME, FRAME_TYPE.SINGLE_FRAME, FRAME_TYPE.CONSECUTIVE_FRAME, bind, Except.bind,
    pure, Except.pure, keyOf, plainMsg]
  simp [hd]
  cases env.parseData _ <;> rfl

end Consecutive

/-- A single or control frame returns what it returns on fresh tables, and leaves the tables alone. -/
theorem handleFrame_complete (sec₀ : δ)
    (ht : f.1.frameType = FRAME_TYPE.SINGLE_FRAME ∨ f.1.frameType = FRAME_TYPE.CONTROL_FRAME) :
    ∃ out : LuaM (δ × Msg J × Msg J), ∀ frames totalSize res calls,
      env.handleFrame ⟨sec₀, frames, totalSize, res, calls⟩ f = out.map fun o =>
        ⟨o.1, frames, totalSize, res ++ [o.2.1], calls ++ [o.2.2]⟩ := by
  obtain ⟨hd, data⟩ := f
  rcases hdec : decryptPayload env.security sec₀ data hd with ⟨sec, status, binaryData⟩
  let msg : Msg J :=
    { hd with
      binaryData, decryptionStatus := status, rpcType := none, rpcFunctionId := none,
      rpcJsonSize := none, rpcCorrelationId := none, payload := none }
  by_cases hdone : binaryData.length == 0 || status == .ERROR
  · refine ⟨.ok (sec, msg, msg), fun frames totalSize res calls => ?_⟩
    simp only [ParseEnv.handleFrame, hdec, hdone]
    rfl
  rcases ht with ht | ht
  · refine ⟨(env.parseData msg).map fun m => (sec, m, msg), fun frames totalSize res calls => ?_⟩
    have ht' : hd.frameType = 1 := ht
    simp only [ParseEnv.handleFrame, hdec, hdone, ht', FRAME_TYPE.CONTROL_FRAME, FRAME_TYPE.FIRST_FRAME,
      FRAME_TYPE.SINGLE_FRAME]
    simp [bind, Except.bind, msg]
    cases env.parseData _ <;> rfl
  · refine ⟨.ok (sec, msg, msg), fun frames totalSize res calls => ?_⟩
    have ht' : hd.frameType = 0 := ht
    simp only [ParseEnv.handleFrame, hdec, hdone, ht', FRAME_TYPE.CONTROL_FRAME]
    rfl

/-! ### A fragmented message -/

/-- An unencrypted message in frames: a first frame and one or more consecutive frames with data, of
which only the last has frame info 0. -/
structure Fragmented where
  first : Header × Bytes
  middle : List (Header × Bytes)
  last : Header × Bytes
  wellFormed : ∀ f ∈ first :: middle ++ [last], WellFormed f
  plain : ∀ f ∈ first :: middle ++ [last], f.1.encryption = false ∧ f.2 ≠ []
  first_type : first.1.frameType = FRAME_TYPE.FIRST_FRAME
  type : ∀ f ∈ middle ++ [last], f.1.frameType = FRAME_TYPE.CONSECUTIVE_FRAME
  ids : ∀ f ∈ middle ++ [last],
    f.1.sessionId = first.1.sessionId ∧ f.1.messageId = first.1.messageId
  middle_info : ∀ f ∈ middle, f.1.frameInfo ≠ LAST_FRAME
  last_info : last.1.frameInfo = LAST_FRAME

def dataOf (fs : List (Header × Bytes)) : Bytes := (fs.map Prod.snd).flatten

def sizeOfFrames (fs : List (Header × Bytes)) : Nat := (fs.map fun f => f.1.size).sum

section Frames
variable (f : Header × Bytes) (fs gs : List (Header × Bytes))

@[simp] theorem dataOf_nil : dataOf [] = [] := rfl

@[simp] theorem dataOf_cons : dataOf (f :: fs) = f.2 ++ dataOf fs := rfl

@[simp] theorem dataOf_append : dataOf (fs ++ gs) = dataOf fs ++ dataOf gs := by simp [dataOf]

@[simp] theorem sizeOfFrames_nil : sizeOfFrames [] = 0 := rfl

@[simp] theorem sizeOfFrames_cons : sizeOfFrames (f :: fs) = f.1.size + sizeOfFrames fs := rfl

@[simp] theorem sizeOfFrames_append : sizeOfFrames (fs ++ gs) = sizeOfFrames fs + sizeOfFrames gs := by
  simp [sizeOfFrames]

end Frames

namespace Fragmented
variable (m : Fragmented)

def frames : List (Header × Bytes) := m.first :: m.middle ++ [m.last]

def key : String := keyOf m.first

theorem keyOf_eq {f : Header × Bytes} (hf : f ∈ m.middle ++ [m.last]) : keyOf f = m.key := by
  obtain ⟨h1, h2⟩ := m.ids f hf
  simp only [keyOf, key, h1, h2]

/-- The message before its binary header is read. `totalSize` starts with the size of the first
frame, which is not part of the data. -/
def assembled : Msg J :=
  { plainMsg m.last with
    binaryData := dataOf (m.middle ++ [m.last])
    size := m.first.1.size + sizeOfFrames (m.middle ++ [m.last]) }

/-- The last frame completes what the frames before it have put in the tables. -/
theorem assembled_eq :
    ({ plainMsg m.last with
        binaryData := dataOf m.middle ++ m.last.2
        size := m.first.1.size + sizeOfFrames m.middle + m.last.1.size } : Msg J) = m.assembled := by
  simp [assembled, Nat.add_assoc]

end Fragmented

theorem foldlM_more {k : String} {cs : List (Header × Bytes)}
    (hcs : ∀ f ∈ cs, f.1.encryption = false ∧ f.2 ≠ [] ∧ f.1.frameType = FRAME_TYPE.CONSECUTIVE_FRAME ∧
      f.1.frameInfo ≠ LAST_FRAME ∧ keyOf f = k)
    (st : ParseState δ J) (acc : Bytes) (n : Nat) (hf : st.frames k = some acc)
    (hn : st.totalSize k = some n) :
    cs.foldlM env.handleFrame st = .ok { st with
      frames := st.frames.set k (acc ++ dataOf cs)
      totalSize := st.totalSize.set k (n + sizeOfFrames cs)
      calls := st.calls ++ cs.map plainMsg } := by
  induction cs generalizing st acc n with
  | nil => simp [Table.set_eq_self hf, Table.set_eq_self hn, pure, Except.pure]
  | cons c cs ih =>
    obtain ⟨he, hd, ht, hi, rfl⟩ := hcs c (by simp)
    rw [List.foldlM_cons, handleFrame_more env st he hd ht hf hn hi]
    refine (ih (fun f hf => hcs f (by simp [hf])) _ _ _ (Table.set_self ..) (Table.set_self ..)).trans ?_
    simp [Nat.add_assoc]

/-- A fragmented message yields its assembled message, and closes its entry in the tables. -/
theorem foldlM_fragmented (m : Fragmented) (st : ParseState δ J) :
    m.frames.foldlM env.handleFrame st = (env.parseData m.assembled).map fun msg =>
      { st with
        frames := st.frames.erase m.key, totalSize := st.totalSize.erase m.key
        res := st.res ++ [msg], calls := st.calls ++ m.frames.map plainMsg } := by
  have hk : keyOf m.last = m.key := m.keyOf_eq (by simp)
  have hcs : ∀ f ∈ m.middle, f.1.encryption = false ∧ f.2 ≠ [] ∧
      f.1.frameType = FRAME_TYPE.CONSECUTIVE_FRAME ∧ f.1.frameInfo ≠ LAST_FRAME ∧ keyOf f = m.key := by
    intro f hf
    obtain ⟨he, hd⟩ := m.plain f (by simp [hf])
    exact ⟨he, hd, m.type f (by simp [hf]), m.middle_info f hf, m.keyOf_eq (by simp [hf])⟩
  obtain ⟨he, hd⟩ := m.plain m.first (by simp)
  obtain ⟨he', hd'⟩ := m.plain m.last (by simp)
  rw [Fragmented.frames, List.cons_append, List.foldlM_cons, handleFrame_first env st he hd m.first_type]
  simp only [bind, Except.bind, List.foldlM_append]
  rw [foldlM_more env hcs _ [] _ (Table.set_self ..) (Table.set_self ..)]
  simp only [List.foldlM_cons, List.foldlM_nil]
  rw [handleFrame_last env _ he' hd' (m.type _ (by simp)) (by rw [hk]; exact Table.set_self ..)
    (by rw [hk]; exact Table.set_self ..) m.last_info]
  rw [List.nil_append, m.assembled_eq, hk]
  cases env.parseData m.assembled with
  | error e => rfl
  | ok msg => simp [Except.map, bind, Except.bind, pure, Except.pure, Fragmented.key]

theorem parse_fragmented (m : Fragmented) (sec : δ) :
    env.parse .new sec (m.frames.map encodeFrame).flatten =
      (env.parseData m.assembled).map fun msg => ⟨.new, sec, [msg], m.frames.map plainMsg⟩ := by
  have hwf : ∀ f ∈ m.frames, WellFormed f := m.wellFormed
  rw [ProtocolHandler.new, parse_encodeFrames env hwf, foldlM_fragmented]
  cases env.parseData m.assembled <;> simp [Except.map]

end Atf
