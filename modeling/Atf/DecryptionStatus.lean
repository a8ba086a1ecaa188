import Atf.ParseRaises
import Mathlib.Data.List.Induction

/-!
# What the decryption status of a message covers

The status stands in the message table of a frame, and a reassembled message is the table of its last
frame: it says how the last frame was decrypted. The consecutive frames before it leave only their data in
`frames`, those that failed to decrypt not even that. `chunksOf` is the history the table does not keep,
all consecutive frames of a message since its first frame; the invariant `Collects` says which part of it
has been collected. So a message whose last frame decrypts covers its frames exactly if none of the others
failed or came in the clear (`Mixes`).

The runs are over frames in the order in which `Parse` handles them, each with the state in which it finds
the security layer; a frame that raises ends its call of `Parse`, and the next call goes on behind it.
-/

namespace Atf
open Lua

variable {δ J : Type} (env : ParseEnv δ J)

/-! ### Runs -/

/-- One frame, with the security layer in the state in which the frame finds it. -/
def ParseEnv.advance (st : ParseState δ J) (x : δ × (Header × Bytes)) : ParseState δ J :=
  let st := { st with sec := x.1 }
  match env.handleFrame st x.2 with
  | .ok st => st
  | .error _ =>
    let tables := raisedTables st (env.receive st.sec x.2).2
    { env.called st x.2 with frames := tables.1, totalSize := tables.2 }

def ParseEnv.received (x : δ × (Header × Bytes)) : Msg J := (env.receive x.1 x.2).2

def ParseEnv.runFrames (sec : δ) (inputs : List (δ × (Header × Bytes))) : ParseState δ J :=
  inputs.foldl env.advance ⟨sec, Table.empty, Table.empty, [], []⟩

theorem advance_of_foldlM {frames : List (Header × Bytes)} {st st' : ParseState δ J}
    (h : frames.foldlM env.handleFrame st = .ok st') :
    ∃ inputs : List (δ × (Header × Bytes)), inputs.map Prod.snd = frames ∧
      inputs.foldl env.advance st = st' := by
  induction frames generalizing st with
  | nil =>
    cases h
    exact ⟨[], rfl, rfl⟩
  | cons f frames ih =>
    obtain ⟨st₁, h₁, h⟩ := bind_eq_ok.mp h
    obtain ⟨inputs, rfl, hrun⟩ := ih h
    refine ⟨(st.sec, f) :: inputs, rfl, ?_⟩
    have hadv : env.advance st (st.sec, f) = st₁ := by simp only [ParseEnv.advance, h₁]
    rw [List.foldl_cons, hadv, hrun]

/-- The frames of a call of `Parse` that returns are a run, and leave what the run leaves. -/
theorem parse_runFrames {sec : δ} {binary : Bytes} {p : Parsed δ J} (h : env.parse .new sec binary = .ok p) :
    ∃ inputs : List (δ × (Header × Bytes)), inputs.map Prod.snd = (wire.split binary).1 ∧
      env.runFrames sec inputs = ⟨p.sec, p.handler.frames, p.handler.totalSize, p.res, p.calls⟩ := by
  rw [parse_eq] at h
  obtain ⟨st, hst, rfl⟩ := map_eq_ok.mp h
  obtain ⟨inputs, hin, hrun⟩ := advance_of_foldlM env hst
  exact ⟨inputs, hin, hrun⟩

/-! ### The tables -/

/-- The collected data after a frame, whether it raised or not. -/
def nextFrames (frames : Table String Bytes) (msg : Msg J) : Table String Bytes :=
  if ¬ msg.Taken then frames
  else if msg.frameType = FRAME_TYPE.FIRST_FRAME then frames.set msg.key []
  else if msg.frameType = FRAME_TYPE.CONSECUTIVE_FRAME then
    match frames msg.key with
    | none => frames
    | some collected =>
      if msg.frameInfo = LAST_FRAME then frames.erase msg.key
      else frames.set msg.key (collected ++ msg.binaryData)
  else frames

theorem nextFrames_of_ne (frames : Table String Bytes) {msg : Msg J} {k : String} (h : k ≠ msg.key) :
    nextFrames frames msg k = frames k := by
  unfold nextFrames
  by_cases ht : msg.Taken
  · rw [if_neg (not_not.mpr ht)]
    by_cases hfirst : msg.frameType = FRAME_TYPE.FIRST_FRAME
    · rw [if_pos hfirst, Table.set_of_ne _ _ h]
    rw [if_neg hfirst]
    by_cases hcons : msg.frameType = FRAME_TYPE.CONSECUTIVE_FRAME
    · rw [if_pos hcons]
      cases frames msg.key with
      | none => rfl
      | some acc =>
        dsimp only
        split
        · exact Table.erase_of_ne _ h
        · exact Table.set_of_ne _ _ h
    · rw [if_neg hcons]
  · rw [if_pos ht]

theorem Paired.advance {st : ParseState δ J} (hp : Paired st.frames st.totalSize) (x : δ × (Header × Bytes)) :
    Paired (env.advance st x).frames (env.advance st x).totalSize := by
  unfold ParseEnv.advance
  dsimp only
  have hsec : Paired { st with sec := x.1 }.frames { st with sec := x.1 }.totalSize := hp
  split
  · rename_i st' h
    exact Paired.handleFrame env hsec h
  · exact Paired.raised hsec _

section Tables
variable {st : ParseState δ J} {x : δ × (Header × Bytes)}

theorem advance_ok {st' : ParseState δ J}
    (h : env.assemble (env.called { st with sec := x.1 } x.2) (env.received x) = .ok st') :
    env.advance st x = st' := by
  have h' : env.handleFrame { st with sec := x.1 } x.2 = .ok st' := h
  simp only [ParseEnv.advance, h']

theorem advance_raised {e : String}
    (h : env.assemble (env.called { st with sec := x.1 } x.2) (env.received x) = .error e) :
    (env.advance st x).frames = (raisedTables st (env.received x)).1 := by
  have h' : env.handleFrame { st with sec := x.1 } x.2 = .error e := h
  simp only [ParseEnv.advance, h']
  rfl

variable (hp : Paired st.frames st.totalSize)
include hp

theorem advance_consecutive (h : (env.received x).Taken)
    (ht : (env.received x).frameType = FRAME_TYPE.CONSECUTIVE_FRAME) :
    (env.advance st x).frames = nextFrames st.frames (env.received x) := by
  have hne : (env.received x).frameType ≠ FRAME_TYPE.FIRST_FRAME := by rw [ht]; decide
  rw [nextFrames, if_neg (not_not.mpr h), if_neg hne, if_pos ht]
  cases hf : st.frames (env.received x).key with
  | none =>
    rw [advance_raised env (assemble_unopened env _ h ht hf)]
    simp [raisedTables, ht, hf]
  | some acc =>
    obtain ⟨n, hn⟩ := hp.entry hf
    dsimp only
    split
    · rename_i hi
      have hlast := assemble_last env (env.called { st with sec := x.1 } x.2) h ht hf hn hi
      cases hd : env.parseData { env.received x with
          binaryData := acc ++ (env.received x).binaryData, size := n + (env.received x).size } with
      | ok m =>
        rw [hd] at hlast
        rw [advance_ok env hlast]
        rfl
      | error e =>
        rw [hd] at hlast
        rw [advance_raised env hlast]
        simp [raisedTables, ht, hf, hn]
    · rename_i hi
      rw [advance_ok env (assemble_more env _ h ht hf hn hi)]
      rfl

theorem advance_frames : (env.advance st x).frames = nextFrames st.frames (env.received x) := by
  by_cases h : (env.received x).Taken
  · rcases frameType_cases (env.received x).frameType with ht | ht | ht | ht | ht
    · rw [advance_ok env (assemble_control env _ h ht)]
      simp [nextFrames, h, ht, FRAME_TYPE.CONTROL_FRAME, FRAME_TYPE.FIRST_FRAME, FRAME_TYPE.CONSECUTIVE_FRAME]
      rfl
    · rw [advance_ok env (assemble_first env _ h ht), nextFrames, if_neg (not_not.mpr h), if_pos ht]
      rfl
    · have hsame : nextFrames st.frames (env.received x) = st.frames := by
        simp [nextFrames, h, ht, FRAME_TYPE.SINGLE_FRAME, FRAME_TYPE.FIRST_FRAME, FRAME_TYPE.CONSECUTIVE_FRAME]
      have hsingle := assemble_single env (env.called { st with sec := x.1 } x.2) h ht
      cases hd : env.parseData (env.received x) with
      | ok m =>
        rw [hd] at hsingle
        rw [advance_ok env hsingle, hsame]
        rfl
      | error e =>
        rw [hd] at hsingle
        rw [advance_raised env hsingle, hsame]
        simp [raisedTables, ht, FRAME_TYPE.SINGLE_FRAME, FRAME_TYPE.CONSECUTIVE_FRAME]
    · exact advance_consecutive env hp h ht
    · have h1 : (env.received x).frameType ≠ FRAME_TYPE.FIRST_FRAME := fun hc => absurd (hc ▸ ht) (by decide)
      have h2 : (env.received x).frameType ≠ FRAME_TYPE.CONSECUTIVE_FRAME := fun hc => absurd (hc ▸ ht) (by decide)
      rw [advance_ok env (assemble_unknown env _ h ht), nextFrames, if_neg (not_not.mpr h), if_neg h1, if_neg h2]
      rfl
  · rw [advance_ok env (assemble_alone env _ h), nextFrames, if_pos h]
    rfl

end Tables

/-! ### The frames of a message -/

/-- The consecutive frames of message `k` since its first frame, while it is open. -/
def chunksStep (k : String) (chunks : Option (List (Msg J))) (msg : Msg J) : Option (List (Msg J)) :=
  if msg.key ≠ k then chunks
  else if msg.frameType = FRAME_TYPE.FIRST_FRAME ∧ msg.Taken then some []
  else if msg.frameType = FRAME_TYPE.CONSECUTIVE_FRAME then
    if msg.frameInfo = LAST_FRAME ∧ msg.Taken then none else chunks.map (· ++ [msg])
  else chunks

def chunksOf (k : String) (msgs : List (Msg J)) : Option (List (Msg J)) := msgs.foldl (chunksStep k) none

/-- The data of the chunks that were taken. -/
def takenData (chunks : List (Msg J)) : Bytes :=
  ((chunks.filter fun c => decide c.Taken).map fun c => c.binaryData).flatten

theorem takenData_append (chunks : List (Msg J)) (msg : Msg J) :
    takenData (chunks ++ [msg]) = takenData chunks ++ if msg.Taken then msg.binaryData else [] := by
  unfold takenData
  by_cases h : msg.Taken <;> simp [h]

theorem takenData_of_success {chunks : List (Msg J)} (h : ∀ c ∈ chunks, c.decryptionStatus = .SUCCESS) :
    takenData chunks = (chunks.map fun c => c.binaryData).flatten := by
  induction chunks with
  | nil => rfl
  | cons c chunks ih =>
    have ih := ih fun d hd => h d (by simp [hd])
    have hs : c.decryptionStatus ≠ .ERROR := by
      rw [h c (by simp)]
      decide
    unfold takenData at ih ⊢
    by_cases hc : c.Taken
    · simp [hc, ih]
    · have hd : c.binaryData = [] := by
        by_contra hne
        exact hc ⟨hne, hs⟩
      simp [hc, ih, hd]

/-- The table holds the data of the chunks that were taken, for the open messages. -/
def Collects (frames : Table String Bytes) (msgs : List (Msg J)) : Prop :=
  ∀ k, frames k = (chunksOf k msgs).map takenData

theorem Collects.step {frames : Table String Bytes} {msgs : List (Msg J)} (h : Collects frames msgs) (msg : Msg J) :
    Collects (nextFrames frames msg) (msgs ++ [msg]) := by
  intro k
  have hk := h k
  simp only [chunksOf, List.foldl_append, List.foldl_cons, List.foldl_nil] at hk ⊢
  generalize msgs.foldl (chunksStep k) none = chunks at hk
  unfold chunksStep
  by_cases hkey : msg.key = k
  · subst hkey
    unfold nextFrames
    by_cases ht : msg.Taken
    · by_cases hfirst : msg.frameType = FRAME_TYPE.FIRST_FRAME
      · simp [ht, hfirst, takenData]
      by_cases hcons : msg.frameType = FRAME_TYPE.CONSECUTIVE_FRAME
      · cases chunks with
        | none => by_cases hi : msg.frameInfo = LAST_FRAME <;> simp_all
        | some cs =>
          by_cases hi : msg.frameInfo = LAST_FRAME
          · simp_all
          · simp_all [takenData_append]
      · simp_all
    · by_cases hcons : msg.frameType = FRAME_TYPE.CONSECUTIVE_FRAME
      · cases chunks with
        | none => simp_all
        | some cs => simp_all [takenData_append]
      · simp_all
  · have hk' : k ≠ msg.key := fun he => hkey he.symm
    simp only [hkey, ne_eq, not_false_iff, if_true]
    rw [← hk]
    exact nextFrames_of_ne frames hk'

theorem collects_run (sec : δ) (inputs : List (δ × (Header × Bytes))) :
    Collects (env.runFrames sec inputs).frames (inputs.map env.received) ∧
      Paired (env.runFrames sec inputs).frames (env.runFrames sec inputs).totalSize := by
  induction inputs using List.reverseRecOn with
  | nil => exact ⟨fun _ => rfl, fun _ => rfl⟩
  | append_singleton inputs x ih =>
    obtain ⟨hc, hp⟩ := ih
    have hrun : env.runFrames sec (inputs ++ [x]) = env.advance (env.runFrames sec inputs) x := by
      simp [ParseEnv.runFrames]
    rw [hrun, List.map_append, List.map_singleton]
    refine ⟨?_, Paired.advance env hp x⟩
    rw [advance_frames env hp]
    exact hc.step _

/-! ### Delivered messages -/

/-- The frame is the last of a message, and `Parse` delivers the message. -/
structure ParseEnv.Completes (st : ParseState δ J) (x : δ × (Header × Bytes)) (m : Msg J) : Prop where
  taken : (env.received x).Taken
  consecutive : (env.received x).frameType = FRAME_TYPE.CONSECUTIVE_FRAME
  info : (env.received x).frameInfo = LAST_FRAME
  delivered : ∃ st', env.handleFrame { st with sec := x.1 } x.2 = .ok st' ∧ st'.res = st.res ++ [m]

/-- Every consecutive frame of the message was decrypted, and the message is made of all their data. -/
def ParseEnv.Covers (msgs : List (Msg J)) (last m : Msg J) : Prop :=
  ∃ chunks, chunksOf last.key msgs = some chunks ∧
    (∀ c ∈ chunks ++ [last], c.decryptionStatus = .SUCCESS) ∧
    ∃ size, env.parseData { last with
      binaryData := ((chunks ++ [last]).map fun c => c.binaryData).flatten, size } = .ok m

/-- A last frame that decrypts, for a message with a frame that failed to decrypt or came in the clear. -/
structure Mixes (msgs : List (Msg J)) (last : Msg J) : Prop where
  taken : last.Taken
  consecutive : last.frameType = FRAME_TYPE.CONSECUTIVE_FRAME
  info : last.frameInfo = LAST_FRAME
  status : last.decryptionStatus = .SUCCESS
  mixed : ∃ chunks, chunksOf last.key msgs = some chunks ∧
    HeaderFits last.serviceType ((takenData chunks).length + last.binaryData.length) ∧
    ∃ c ∈ chunks, c.decryptionStatus ≠ .SUCCESS

theorem parseData_status {msg m : Msg J} (h : env.parseData msg = .ok m) :
    m.decryptionStatus = msg.decryptionStatus := by
  unfold ParseEnv.parseData at h
  split at h
  · obtain ⟨byte1, -, h⟩ := bind_eq_ok.mp h
    obtain ⟨word1, -, h⟩ := bind_eq_ok.mp h
    obtain ⟨jsonSize, -, h⟩ := bind_eq_ok.mp h
    split at h
    · cases h
      rfl
    · obtain ⟨correlationId, -, h⟩ := bind_eq_ok.mp h
      cases h
      rfl
  · cases h
    rfl

section Delivered
variable {st : ParseState δ J} {x : δ × (Header × Bytes)} {msgs : List (Msg J)}
  (hc : Collects st.frames msgs) (hp : Paired st.frames st.totalSize)
include hc hp

/-- The delivered message is made of the data of the chunks that were taken. -/
theorem Completes.spec {m : Msg J} (h : env.Completes st x m) :
    ∃ chunks, chunksOf (env.received x).key msgs = some chunks ∧
      ∃ size, env.parseData { env.received x with
        binaryData := takenData chunks ++ (env.received x).binaryData, size } = .ok m := by
  obtain ⟨st', hok, hres⟩ := h.delivered
  have hok : env.assemble (env.called { st with sec := x.1 } x.2) (env.received x) = .ok st' := hok
  cases hf : st.frames (env.received x).key with
  | none =>
    rw [assemble_unopened env (env.called { st with sec := x.1 } x.2) h.taken h.consecutive hf] at hok
    cases hok
  | some acc =>
    obtain ⟨n, hn⟩ := hp.entry hf
    rw [assemble_last env (env.called { st with sec := x.1 } x.2) h.taken h.consecutive hf hn h.info] at hok
    obtain ⟨m', hm', rfl⟩ := map_eq_ok.mp hok
    have hm : m' = m := by simpa [ParseEnv.called] using hres
    subst hm
    rw [hc, Option.map_eq_some_iff] at hf
    obtain ⟨chunks, hchunks, rfl⟩ := hf
    exact ⟨chunks, hchunks, _, hm'⟩

theorem Mixes.completes (h : Mixes msgs (env.received x)) : ∃ m, env.Completes st x m := by
  obtain ⟨chunks, hchunks, hfits, -⟩ := h.mixed
  have hf : st.frames (env.received x).key = some (takenData chunks) := by rw [hc, hchunks]; rfl
  obtain ⟨n, hn⟩ := hp.entry hf
  obtain ⟨m, hm⟩ := (parseData_ok_iff env { env.received x with
    binaryData := takenData chunks ++ (env.received x).binaryData, size := n + (env.received x).size }).mpr
    (by simpa using hfits)
  have hlast := assemble_last env (env.called { st with sec := x.1 } x.2) h.taken h.consecutive hf hn h.info
  rw [hm] at hlast
  exact ⟨m, h.taken, h.consecutive, h.info, _, hlast, rfl⟩

/-- The status of a delivered message covers its frames exactly if they were not mixed. -/
theorem covers_iff_not_mixes {m : Msg J} (h : env.Completes st x m) (hs : m.decryptionStatus = .SUCCESS) :
    env.Covers msgs (env.received x) m ↔ ¬ Mixes msgs (env.received x) := by
  obtain ⟨chunks, hchunks, size, hm⟩ := Completes.spec env hc hp h
  have hlast : (env.received x).decryptionStatus = .SUCCESS := (parseData_status env hm).symm.trans hs
  constructor
  · rintro ⟨cs, hcs, hall, -⟩ hmix
    obtain ⟨cs', hcs', -, c, hc, hne⟩ := hmix.mixed
    rw [hcs] at hcs'
    cases hcs'
    exact hne (hall c (by simp [hc]))
  · intro hmix
    have hfits := (parseData_ok_iff env _).mp ⟨m, hm⟩
    simp only [List.length_append] at hfits
    have hall : ∀ c ∈ chunks, c.decryptionStatus = .SUCCESS := by
      intro c hc
      by_contra hne
      exact hmix ⟨h.taken, h.consecutive, h.info, hlast, chunks, hchunks, hfits, c, hc, hne⟩
    refine ⟨chunks, hchunks, ?_, size, ?_⟩
    · intro c hc
      rcases List.mem_append.mp hc with hc | hc
      · exact hall c hc
      · rw [List.mem_singleton.mp hc]
        exact hlast
    · simpa [takenData_of_success hall] using hm

end Delivered

/-- Over every sequence of frames, every message delivered with status `SUCCESS` covers its frames exactly if
no last frame that decrypts completes a message with a frame that did not. The frames of a call of `Parse` that
returns are such a sequence, and it leaves what `Parse` leaves. -/
theorem success_covers_iff (sec : δ) :
    (∀ inputs : List (δ × (Header × Bytes)),
      (∀ pre x post m, inputs = pre ++ x :: post → env.Completes (env.runFrames sec pre) x m →
          m.decryptionStatus = .SUCCESS → env.Covers (pre.map env.received) (env.received x) m) ↔
        ∀ pre x post, inputs = pre ++ x :: post → ¬ Mixes (pre.map env.received) (env.received x)) ∧
      ∀ binary p, env.parse .new sec binary = .ok p → ∃ inputs : List (δ × (Header × Bytes)),
        inputs.map Prod.snd = (wire.split binary).1 ∧
          env.runFrames sec inputs = ⟨p.sec, p.handler.frames, p.handler.totalSize, p.res, p.calls⟩ := by
  refine ⟨fun inputs => ⟨fun hall pre x post hin hmix => ?_, fun hall pre x post m hin hm hs => ?_⟩,
    fun binary p h => parse_runFrames env h⟩
  · obtain ⟨hc, hp⟩ := collects_run env sec pre
    obtain ⟨m, hm⟩ := Mixes.completes env hc hp hmix
    obtain ⟨chunks, -, size, hd⟩ := Completes.spec env hc hp hm
    have hs := (parseData_status env hd).trans hmix.status
    exact (covers_iff_not_mixes env hc hp hm hs).mp (hall pre x post m hin hm hs) hmix
  · obtain ⟨hc, hp⟩ := collects_run env sec pre
    exact (covers_iff_not_mixes env hc hp hm hs).mpr (hall pre x post hin)

/-! ### A message with a plain and a lost chunk -/

namespace MixedFrames

/-- Data decrypts to itself, unless it starts with a zero byte. -/
def environment : ParseEnv Unit Unit where
  security :=
    ⟨fun s data _ _ _ => (s, if data.head? = some 0 then none else some data),
      fun s data _ _ => .ok (s, some data)⟩
  decode := fun _ => none
  validateJson := false

def frame (frameType frameInfo : Nat) (encryption : Bool) (data : Bytes) : Unit × (Header × Bytes) :=
  ((), ⟨3, frameType, encryption, SERVICE_TYPE.PCM, frameInfo, 1, data.length, 7⟩, data)

def first : Unit × (Header × Bytes) := frame FRAME_TYPE.FIRST_FRAME 0 false [0, 0, 0, 3, 0, 0, 0, 3]

def plain : Unit × (Header × Bytes) := frame FRAME_TYPE.CONSECUTIVE_FRAME 1 false [1]

def corrupt : Unit × (Header × Bytes) := frame FRAME_TYPE.CONSECUTIVE_FRAME 2 true [0, 5]

def last : Unit × (Header × Bytes) := frame FRAME_TYPE.CONSECUTIVE_FRAME 0 true [9]

end MixedFrames

open MixedFrames in
/-- The message is delivered as decrypted, with a chunk that came in the clear and without one that failed. -/
theorem mixed_message_delivered :
    ∃ m, environment.Completes (environment.runFrames () [first, plain, corrupt]) last m ∧
      m.decryptionStatus = .SUCCESS ∧ m.binaryData = [1, 9] ∧
      ¬ environment.Covers ([first, plain, corrupt].map environment.received) (environment.received last) m := by
  have hres : (environment.handleFrame (environment.runFrames () [first, plain, corrupt]) last.2).map
      (fun st => st.res) = .ok ((environment.runFrames () [first, plain, corrupt]).res ++
        [{ environment.received last with binaryData := [1, 9], size := 10 }]) := by decide +kernel
  refine ⟨{ environment.received last with binaryData := [1, 9], size := 10 }, ⟨?_, rfl, rfl, ?_⟩, rfl, rfl, ?_⟩
  · exact ⟨List.cons_ne_nil _ _, by decide⟩
  · exact map_eq_ok.mp hres
  · rintro ⟨chunks, hchunks, hall, -⟩
    have hframes : chunksOf (environment.received last).key ([first, plain, corrupt].map environment.received) =
        some [environment.received plain, environment.received corrupt] := by decide +kernel
    rw [hframes] at hchunks
    cases hchunks
    exact absurd (hall (environment.received plain) (by simp)) (by decide)

end Atf
