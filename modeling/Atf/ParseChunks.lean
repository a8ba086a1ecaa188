import Atf.Wire

/-!
# `Parse` does not see how the stream is cut

A cut of the stream can fall anywhere: inside a header, inside the data of a frame or between the
frames of several half-assembled messages. The buffer keeps what is not a complete frame, so by the
law of chunked reading (`Splitter.split_append`) the frames cut off in successive calls are the
frames of the whole stream, and `handleFrame` sees them in the same order with the same tables. That
it only appends to the lists it returns (`handleFrame_append`) makes the results concatenate.
-/

namespace Atf
open Lua

variable {δ J : Type} (env : ParseEnv δ J)

/-- `st` with messages and frame handler calls made before it. -/
def ParseState.prepend (st : ParseState δ J) (res calls : List (Msg J)) : ParseState δ J :=
  { st with res := res ++ st.res, calls := calls ++ st.calls }

theorem handleFrame_append (st : ParseState δ J) (frame : Header × Bytes) (res calls : List (Msg J)) :
    env.handleFrame (st.prepend res calls) frame =
      (env.handleFrame st frame).map (·.prepend res calls) := by
  unfold ParseEnv.handleFrame
  simp only [ParseState.prepend, bind, Except.bind, pure, Except.pure, List.append_assoc]
  split
  · rfl
  split
  · rfl
  split
  · rfl
  split
  · cases env.parseData _ <;> simp [Except.map]
  split
  · cases st.frames _ with
    | none => rfl
    | some collected =>
      cases st.totalSize _ with
      | none => rfl
      | some total =>
        dsimp only
        split
        · cases env.parseData _ <;> simp [Except.map]
        · rfl
  · rfl

theorem foldlM_handleFrame_append (frames : List (Header × Bytes)) (st : ParseState δ J)
    (res calls : List (Msg J)) :
    frames.foldlM env.handleFrame (st.prepend res calls) =
      (frames.foldlM env.handleFrame st).map (·.prepend res calls) := by
  induction frames generalizing st with
  | nil => rfl
  | cons f frames ih =>
    simp only [List.foldlM_cons, handleFrame_append, bind, Except.bind]
    cases env.handleFrame st f with
    | error e => rfl
    | ok st' => exact ih st'

/-- Successive calls of `Parse`, with the lists they return concatenated. -/
def ParseEnv.parseAll (env : ParseEnv δ J) (self : ProtocolHandler) (sec : δ) : List Bytes → LuaM (Parsed δ J)
  | [] => .ok ⟨self, sec, [], []⟩
  | b :: bs => do
    let p ← env.parse self sec b
    let q ← env.parseAll p.handler p.sec bs
    return ⟨q.handler, q.sec, p.res ++ q.res, p.calls ++ q.calls⟩

/-- Two calls are one call with both chunks. -/
theorem parse_append (self : ProtocolHandler) (sec : δ) (b c : Bytes) :
    env.parse self sec (b ++ c) = (do
      let p ← env.parse self sec b
      let q ← env.parse p.handler p.sec c
      return ⟨q.handler, q.sec, p.res ++ q.res, p.calls ++ q.calls⟩) := by
  have hsplit := wire.split_append (self.buffer ++ b) c
  simp only [parse_eq, ← List.append_assoc, hsplit, List.foldlM_append]
  cases (wire.split (self.buffer ++ b)).1.foldlM env.handleFrame
      ⟨sec, self.frames, self.totalSize, [], []⟩ with
  | error e => rfl
  | ok st =>
    have hpre : st = (⟨st.sec, st.frames, st.totalSize, [], []⟩ : ParseState δ J).prepend st.res st.calls := by
      simp [ParseState.prepend]
    simp only [bind, Except.bind, Except.map]
    rw [hpre, foldlM_handleFrame_append]
    simp only [ParseState.prepend, List.append_nil]
    cases (wire.split ((wire.split (self.buffer ++ b)).2 ++ c)).1.foldlM env.handleFrame
      ⟨st.sec, st.frames, st.totalSize, [], []⟩ <;> rfl

/-- However the bytes are cut into calls of `Parse`, the result is that of one call with all of them, also when it
raises. -/
theorem parse_chunks (self : ProtocolHandler) (sec : δ) (b : Bytes) (bs : List Bytes) :
    env.parseAll self sec (b :: bs) = env.parse self sec (b :: bs).flatten := by
  induction bs generalizing self sec b with
  | nil =>
    simp only [ParseEnv.parseAll, List.flatten_cons, List.flatten_nil, List.append_nil]
    cases env.parse self sec b with
    | error e => rfl
    | ok p => simp [bind, Except.bind, pure, Except.pure]
  | cons c bs ih =>
    rw [List.flatten_cons, parse_append]
    unfold ParseEnv.parseAll
    simp only [ih]

end Atf
