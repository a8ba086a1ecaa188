import Atf.Fragments
import Atf.Lib.Interleave

/-!
# Interleaved reassembly

The frames of several messages arrive interleaved. The tables keep one entry for each message by its
session and message id, and `Reassembling` says what these entries are when `rest` is still to come:
nothing is known before the first frame, between the first and the last frame the entry holds the
data and the sizes of the frames seen so far, and after the last frame there is none. A frame of one
message leaves the entries of all others alone, as their keys differ (`frameKey_inj`), and a single or
control frame does not look at the tables at all.
-/

namespace Atf
open Lua Interleave

/-- A message as it is sent: in frames, or as one single or control frame. -/
inductive WireMessage
  | fragmented (m : Fragmented)
  | complete (f : Header × Bytes) (wellFormed : WellFormed f)
    (type : f.1.frameType = FRAME_TYPE.SINGLE_FRAME ∨ f.1.frameType = FRAME_TYPE.CONTROL_FRAME)

namespace WireMessage

def frames : WireMessage → List (Header × Bytes)
  | fragmented m => m.frames
  | complete f _ _ => [f]

def bytes (u : WireMessage) : Bytes := (u.frames.map encodeFrame).flatten

theorem bytes_complete {f : Header × Bytes} (hf) (ht) : (complete f hf ht).bytes = encodeFrame f := by
  simp [bytes, frames]

theorem wellFormed (u : WireMessage) : ∀ f ∈ u.frames, WellFormed f := by
  cases u with
  | fragmented m => exact m.wellFormed
  | complete f hf ht =>
    intro g hg
    rw [List.mem_singleton.mp hg]
    exact hf

end WireMessage

variable {δ J ι : Type} [DecidableEq ι] (env : ParseEnv δ J)

/-- Each message parsed alone on a fresh handler, one after the other, with the lists returned
concatenated. -/
def ParseEnv.parseEach (env : ParseEnv δ J) (sec : δ) : List WireMessage → LuaM (δ × List (Msg J))
  | [] => .ok (sec, [])
  | u :: us => do
    let p ← env.parse .new sec u.bytes
    let (sec, res) ← env.parseEach p.sec us
    return (sec, p.res ++ res)

/-- The fragmented messages of the family have different session or message ids. -/
def DistinctIds (units : ι → WireMessage) : Prop :=
  ∀ i j a b, units i = .fragmented a → units j = .fragmented b →
    a.first.1.sessionId = b.first.1.sessionId → a.first.1.messageId = b.first.1.messageId → i = j

/-- The tables when the frames in `rest` are still to come. -/
structure Reassembling (units : ι → WireMessage) (rest : List (ι × (Header × Bytes)))
    (frames : Table String Bytes) (totalSize : Table String Nat) : Prop where
  suffix : ∀ i, proj i rest <:+ (units i).frames
  opened : ∀ i m done, units i = .fragmented m → proj i rest ≠ [] →
    m.frames = m.first :: done ++ proj i rest →
    frames m.key = some (dataOf done) ∧ totalSize m.key = some (m.first.1.size + sizeOfFrames done)
  closed : ∀ i m, units i = .fragmented m → proj i rest = [] →
    frames m.key = none ∧ totalSize m.key = none

namespace Reassembling
variable {units : ι → WireMessage} {rest : List (ι × (Header × Bytes))} {frames : Table String Bytes}
  {totalSize : Table String Nat} {i : ι} {f : Header × Bytes}

theorem start (h : ∀ i, proj i rest = (units i).frames) : Reassembling units rest frames totalSize := by
  refine ⟨fun i => h i ▸ List.suffix_rfl, ?_, ?_⟩
  · intro i m done hu _ hm
    have hl := congrArg List.length hm
    simp only [h, hu, WireMessage.frames, List.length_append, List.length_cons] at hl
    omega
  · intro i m hu hn
    rw [h, hu] at hn
    cases hn

/-- A frame of message `i` that leaves the entries of the other messages alone keeps the invariant,
when the entry of `i` itself is as it should be. -/
theorem step (hinv : Reassembling units ((i, f) :: rest) frames totalSize) {frames' : Table String Bytes}
    {totalSize' : Table String Nat}
    (hother : ∀ j m, j ≠ i → units j = .fragmented m →
      frames' m.key = frames m.key ∧ totalSize' m.key = totalSize m.key)
    (hopen : ∀ m done, units i = .fragmented m → proj i rest ≠ [] → m.frames = m.first :: done ++ proj i rest →
      frames' m.key = some (dataOf done) ∧ totalSize' m.key = some (m.first.1.size + sizeOfFrames done))
    (hclosed : ∀ m, units i = .fragmented m → proj i rest = [] →
      frames' m.key = none ∧ totalSize' m.key = none) :
    Reassembling units rest frames' totalSize' := by
  refine ⟨?_, ?_, ?_⟩
  · intro j
    by_cases hj : i = j
    · subst hj
      have := hinv.suffix i
      rw [proj_cons_self] at this
      exact (List.suffix_cons f _).trans this
    · have := hinv.suffix j
      rwa [proj_cons_of_ne hj] at this
  · intro j m done hu hne hm
    by_cases hj : i = j
    · subst hj
      exact hopen m done hu hne hm
    · obtain ⟨h1, h2⟩ := hother j m (Ne.symm hj) hu
      rw [h1, h2]
      rw [← proj_cons_of_ne hj f rest] at hne hm
      exact hinv.opened j m done hu hne hm
  · intro j m hu hn
    by_cases hj : i = j
    · subst hj
      exact hclosed m hu hn
    · obtain ⟨h1, h2⟩ := hother j m (Ne.symm hj) hu
      rw [h1, h2]
      rw [← proj_cons_of_ne hj f rest] at hn
      exact hinv.closed j m hu hn

end Reassembling

/-! ### One frame of the interleaving -/

theorem parse_complete {f : Header × Bytes} (hf : WellFormed f)
    (ht : f.1.frameType = FRAME_TYPE.SINGLE_FRAME ∨ f.1.frameType = FRAME_TYPE.CONTROL_FRAME) (sec : δ) :
    ∃ out : LuaM (δ × Msg J × Msg J),
      env.parse .new sec (encodeFrame f) = out.map (fun o => ⟨.new, o.1, [o.2.1], [o.2.2]⟩) ∧
      ∀ frames totalSize res calls, env.handleFrame ⟨sec, frames, totalSize, res, calls⟩ f =
        out.map fun o => ⟨o.1, frames, totalSize, res ++ [o.2.1], calls ++ [o.2.2]⟩ := by
  obtain ⟨out, hout⟩ := handleFrame_complete env sec ht
  refine ⟨out, ?_, hout⟩
  have hwf : ∀ g ∈ [f], WellFormed g := by simpa using hf
  have hparse := parse_encodeFrames env hwf Table.empty Table.empty sec
  simp only [List.map_cons, List.map_nil, List.flatten_cons, List.flatten_nil, List.append_nil,
    List.foldlM_cons, List.foldlM_nil, hout] at hparse
  rw [ProtocolHandler.new, hparse]
  cases out <;> rfl

theorem Fragmented.frames_cases (m : Fragmented) {done r : List (Header × Bytes)} {f : Header × Bytes}
    (h : m.frames = done ++ f :: r) :
    (done = [] ∧ f = m.first ∧ r = m.middle ++ [m.last]) ∨
      (∃ d, done = m.first :: d ∧ f ∈ m.middle ∧ r ≠ []) ∨
      (done = m.first :: m.middle ∧ f = m.last ∧ r = []) := by
  cases done with
  | nil =>
    obtain ⟨rfl, rfl⟩ := List.cons.inj h
    exact .inl ⟨rfl, rfl, rfl⟩
  | cons g d =>
    obtain ⟨rfl, hd⟩ := List.cons.inj h
    right
    rcases List.eq_nil_or_concat r with rfl | ⟨r, x, rfl⟩
    · obtain ⟨rfl, hx⟩ := List.append_inj' hd rfl
      exact .inr ⟨rfl, (List.cons.inj hx).1.symm, rfl⟩
    · have hsplit : m.middle ++ [m.last] = (d ++ f :: r) ++ [x] := by simpa using hd
      obtain ⟨hmid, -⟩ := List.append_inj' hsplit rfl
      exact .inl ⟨d, rfl, by rw [hmid]; simp, by simp⟩

section Units
variable {units : ι → WireMessage} {rest : List (ι × (Header × Bytes))} {i : ι} {f : Header × Bytes}
  (hids : DistinctIds units) (st : ParseState δ J)
  (hinv : Reassembling units ((i, f) :: rest) st.frames st.totalSize)
include hids hinv

/-- The step of the invariant when message `i` is fragmented and only its entry changes. -/
theorem Reassembling.step_fragmented {m : Fragmented} (hu : units i = .fragmented m)
    {frames' : Table String Bytes} {totalSize' : Table String Nat}
    (hother : ∀ k, k ≠ m.key → frames' k = st.frames k ∧ totalSize' k = st.totalSize k)
    (hopen : ∀ done, proj i rest ≠ [] → m.frames = m.first :: done ++ proj i rest →
      frames' m.key = some (dataOf done) ∧ totalSize' m.key = some (m.first.1.size + sizeOfFrames done))
    (hclosed : proj i rest = [] → frames' m.key = none ∧ totalSize' m.key = none) :
    Reassembling units rest frames' totalSize' := by
  refine hinv.step ?_ ?_ ?_
  · intro j b hne hj
    refine hother b.key fun h => ?_
    obtain ⟨h1, h2⟩ := frameKey_inj h
    exact hne (hids j i b m hj hu h1 h2)
  · intro m' done hu' hne hm
    obtain rfl : m = m' := by simpa [hu] using hu'
    exact hopen done hne hm
  · intro m' hu' hn
    obtain rfl : m = m' := by simpa [hu] using hu'
    exact hclosed hn

/-- A frame that is not the last of its message returns nothing. -/
theorem handleFrame_of_more (hmore : proj i rest ≠ []) :
    ∃ st', env.handleFrame st f = .ok st' ∧ st'.sec = st.sec ∧ st'.res = st.res ∧
      Reassembling units rest st'.frames st'.totalSize := by
  obtain ⟨done, hdone⟩ := hinv.suffix i
  rw [proj_cons_self] at hdone
  cases hu : units i with
  | complete g hg ht =>
    -- it has one frame only
    have hl := congrArg List.length hdone
    have := List.length_pos_of_ne_nil hmore
    simp only [hu, WireMessage.frames, List.length_append, List.length_cons, List.length_nil] at hl
    omega
  | fragmented m =>
    simp only [hu, WireMessage.frames] at hdone
    obtain ⟨he, hd⟩ := m.plain f (show f ∈ m.frames by rw [← hdone]; simp)
    rcases m.frames_cases hdone.symm with ⟨rfl, rfl, hrest⟩ | ⟨d, rfl, hmid, -⟩ | ⟨-, -, hn⟩
    · refine ⟨_, handleFrame_first env st he hd m.first_type, rfl, rfl, ?_⟩
      refine hinv.step_fragmented hids st hu ?_ ?_ (absurd · hmore)
      · exact fun k hk => ⟨Table.set_of_ne _ _ hk, Table.set_of_ne _ _ hk⟩
      · intro done _ hm
        obtain rfl : done = [] := by simpa [Fragmented.frames, hrest] using hm
        exact ⟨Table.set_self .., Table.set_self ..⟩
    · have hk : keyOf f = m.key := m.keyOf_eq (by simp [hmid])
      obtain ⟨h1, h2⟩ := hinv.opened i m d hu (by simp) (by rw [proj_cons_self]; exact hdone.symm)
      rw [← hk] at h1 h2
      refine ⟨_, handleFrame_more env st he hd (m.type f (by simp [hmid])) h1 h2 (m.middle_info f hmid),
        rfl, rfl, ?_⟩
      refine hinv.step_fragmented hids st hu ?_ ?_ (absurd · hmore)
      · rw [← hk]
        exact fun k hk => ⟨Table.set_of_ne _ _ hk, Table.set_of_ne _ _ hk⟩
      · intro done _ hm
        have hcat : m.first :: (d ++ [f]) ++ proj i rest = m.first :: done ++ proj i rest := by
          rw [← hm, ← hdone]; simp
        obtain rfl : d ++ [f] = done := (List.cons.inj (List.append_cancel_right hcat)).2
        rw [← hk]
        simp [Nat.add_assoc]
    · exact absurd hn hmore

/-- The last frame of a message returns what the message returns alone on a fresh handler. -/
theorem handleFrame_of_last (hlast : proj i rest = []) :
    ∃ (out : LuaM (δ × Msg J × Msg J)) (next : δ × Msg J × Msg J → ParseState δ J),
      (env.parse .new st.sec (units i).bytes).map (fun p => (p.sec, p.res)) =
        out.map (fun o => (o.1, [o.2.1])) ∧
      env.handleFrame st f = out.map next ∧ ∀ o, (next o).sec = o.1 ∧ (next o).res = st.res ++ [o.2.1] ∧
        Reassembling units rest (next o).frames (next o).totalSize := by
  obtain ⟨done, hdone⟩ := hinv.suffix i
  rw [proj_cons_self, hlast] at hdone
  cases hu : units i with
  | complete g hg ht =>
    obtain ⟨-, rfl⟩ : done = [] ∧ f = g := by
      simpa [hu, WireMessage.frames, List.append_eq_singleton_iff] using hdone
    obtain ⟨out, hparse, hframe⟩ := parse_complete env hg ht st.sec
    refine ⟨out, _, ?_, hframe st.frames st.totalSize st.res st.calls, ?_⟩
    · rw [WireMessage.bytes_complete, hparse]
      cases out <;> rfl
    · intro o
      refine ⟨rfl, rfl, hinv.step (fun _ _ _ _ => ⟨rfl, rfl⟩) ?_ ?_⟩
      · intro m _ hm
        rw [hu] at hm
        cases hm
      · intro m hm
        rw [hu] at hm
        cases hm
  | fragmented m =>
    simp only [hu, WireMessage.frames] at hdone
    obtain ⟨he, hd⟩ := m.plain f (show f ∈ m.frames by rw [← hdone]; simp)
    rcases m.frames_cases hdone.symm with ⟨-, -, hrest⟩ | ⟨-, -, -, hn⟩ | ⟨rfl, rfl, -⟩
    · simp at hrest
    · exact absurd rfl hn
    · have hk : keyOf m.last = m.key := m.keyOf_eq (by simp)
      obtain ⟨h1, h2⟩ := hinv.opened i m m.middle hu (by simp)
        (by rw [proj_cons_self, hlast]; exact hdone.symm)
      rw [← hk] at h1 h2
      have hframe := handleFrame_last env st he hd (m.type m.last (by simp)) h1 h2 m.last_info
      rw [m.assembled_eq] at hframe
      refine ⟨(env.parseData m.assembled).map fun msg => (st.sec, msg, plainMsg m.last),
        fun o => { st with
          sec := o.1, frames := st.frames.erase (keyOf m.last), totalSize := st.totalSize.erase (keyOf m.last)
          res := st.res ++ [o.2.1], calls := st.calls ++ [o.2.2] }, ?_, ?_, ?_⟩
      · rw [WireMessage.bytes, WireMessage.frames, parse_fragmented]
        cases env.parseData m.assembled <;> rfl
      · rw [hframe]
        cases env.parseData m.assembled <;> rfl
      · intro o
        refine ⟨rfl, rfl, hinv.step_fragmented hids st hu ?_ (fun _ hne => absurd hlast hne) ?_⟩
        · rw [← hk]
          exact fun k hk => ⟨Table.erase_of_ne _ hk, Table.erase_of_ne _ hk⟩
        · rw [← hk]
          exact fun _ => ⟨Table.erase_self .., Table.erase_self ..⟩

end Units

/-- Alone, every message returns exactly one message. -/
theorem WireMessage.parse_alone (u : WireMessage) (sec : δ) (p : Parsed δ J)
    (h : env.parse .new sec u.bytes = .ok p) : ∃ msg, p.res = [msg] := by
  cases u with
  | fragmented m =>
    rw [WireMessage.bytes, WireMessage.frames, parse_fragmented] at h
    cases hm : env.parseData m.assembled with
    | error e => rw [hm] at h; cases h
    | ok msg => rw [hm] at h; cases h; exact ⟨msg, rfl⟩
  | complete f hf ht =>
    obtain ⟨out, hparse, -⟩ := parse_complete env hf ht sec
    rw [WireMessage.bytes_complete, hparse] at h
    cases out with
    | error e => cases h
    | ok o => cases h; exact ⟨o.2.1, rfl⟩

/-! ### The whole interleaving -/

/-- What is still to come returns what its messages return alone, in order of completion, and leaves no
message open. -/
theorem foldlM_interleaved {units : ι → WireMessage} (hids : DistinctIds units)
    (rest : List (ι × (Header × Bytes))) (st : ParseState δ J)
    (hinv : Reassembling units rest st.frames st.totalSize) :
    ((rest.map Prod.snd).foldlM env.handleFrame st).map (fun st => (st.sec, st.res)) =
        (env.parseEach st.sec ((completions rest).map units)).map (fun q => (q.1, st.res ++ q.2)) ∧
      ∀ st', (rest.map Prod.snd).foldlM env.handleFrame st = .ok st' →
        Reassembling units [] st'.frames st'.totalSize := by
  induction rest generalizing st with
  | nil =>
    refine ⟨by simp [Except.map, ParseEnv.parseEach, pure, Except.pure], ?_⟩
    intro st' h
    cases h
    exact hinv
  | cons p rest ih =>
    obtain ⟨i, f⟩ := p
    simp only [List.map_cons, List.foldlM_cons]
    by_cases hlast : proj i rest = []
    · obtain ⟨out, next, hparse, hframe, hnext⟩ := handleFrame_of_last env hids st hinv hlast
      rw [completions_cons_of_last hlast, hframe, List.map_cons, ParseEnv.parseEach]
      cases out with
      | error e =>
        cases hp : env.parse .new st.sec (units i).bytes with
        | error e' =>
          rw [hp] at hparse
          cases hparse
          exact ⟨rfl, nofun⟩
        | ok p => rw [hp] at hparse; cases hparse
      | ok o =>
        obtain ⟨hs, hr, hi⟩ := hnext o
        obtain ⟨h1, h2⟩ := ih (next o) hi
        cases hp : env.parse .new st.sec (units i).bytes with
        | error e => rw [hp] at hparse; cases hparse
        | ok p =>
          rw [hp] at hparse
          simp only [Except.map, Except.ok.injEq, Prod.mk.injEq] at hparse
          refine ⟨?_, h2⟩
          rw [hs, hr] at h1
          simp only [Except.map, bind, Except.bind, hparse] at h1 ⊢
          rw [h1]
          cases env.parseEach o.1 ((completions rest).map units) with
          | error e => rfl
          | ok q => simp [pure, Except.pure]
    · obtain ⟨st', hframe, hs, hr, hi⟩ := handleFrame_of_more env hids st hinv hlast
      rw [completions_cons_of_more hlast, hframe, ← hs, ← hr]
      exact ih st' hi

/-- Over every interleaving of the frames of messages with different ids, what is parsed is what the messages parse to
one by one, in the order of their last frames, and nothing of them is left. -/
theorem parse_interleaved {units : ι → WireMessage} (hids : DistinctIds units)
    {seq : List (ι × (Header × Bytes))} (hseq : ∀ i, proj i seq = (units i).frames)
    (frames : Table String Bytes) (totalSize : Table String Nat) (sec : δ) :
    (env.parse ⟨[], frames, totalSize⟩ sec ((seq.map Prod.snd).map encodeFrame).flatten).map
        (fun p => (p.sec, p.res)) = env.parseEach sec ((completions seq).map units) ∧
      (∀ p, env.parse ⟨[], frames, totalSize⟩ sec ((seq.map Prod.snd).map encodeFrame).flatten = .ok p →
        p.handler.buffer = [] ∧ ∀ i m, units i = .fragmented m →
          p.handler.frames m.key = none ∧ p.handler.totalSize m.key = none) ∧
      ∀ i sec p, env.parse .new sec (units i).bytes = .ok p → ∃ msg, p.res = [msg] := by
  have hwf : ∀ f ∈ seq.map Prod.snd, WellFormed f := by
    intro f hf
    obtain ⟨⟨i, g⟩, hp, rfl⟩ := List.mem_map.mp hf
    exact (units i).wellFormed g (hseq i ▸ mem_proj hp)
  obtain ⟨h1, h2⟩ := foldlM_interleaved env hids seq ⟨sec, frames, totalSize, [], []⟩ (.start hseq)
  rw [parse_encodeFrames env hwf]
  refine ⟨?_, ?_, fun i => (units i).parse_alone env⟩
  · cases hrun : (seq.map Prod.snd).foldlM env.handleFrame ⟨sec, frames, totalSize, [], []⟩ with
    | error e =>
      rw [hrun] at h1
      cases heach : env.parseEach sec ((completions seq).map units) with
      | error e' => rw [heach] at h1; exact h1
      | ok q => rw [heach] at h1; cases h1
    | ok st =>
      rw [hrun] at h1
      cases heach : env.parseEach sec ((completions seq).map units) with
      | error e' => rw [heach] at h1; cases h1
      | ok q => rw [heach] at h1; simpa [Except.map] using h1
  · intro p hp
    cases hrun : (seq.map Prod.snd).foldlM env.handleFrame ⟨sec, frames, totalSize, [], []⟩ with
    | error e => rw [hrun] at hp; cases hp
    | ok st =>
      rw [hrun] at hp
      cases hp
      exact ⟨rfl, fun i m hu => (h2 st hrun).closed i m hu rfl⟩

/-! ### Two fragmented messages and a control frame -/

namespace Sample

def frame (frameType frameInfo sessionId messageId : Nat) (data : Bytes) : Header × Bytes :=
  ({ version := 3, frameType, encryption := false, serviceType := SERVICE_TYPE.VIDEO, frameInfo, sessionId
     size := data.length, messageId }, data)

def long : Fragmented where
  first := frame 2 0 1 7 [0, 0, 0, 3, 0, 0, 0, 2]
  middle := [frame 3 1 1 7 [10, 11]]
  last := frame 3 0 1 7 [12]
  wellFormed := by
    intro f hf
    simp only [List.cons_append, List.nil_append, List.mem_cons, List.not_mem_nil, or_false] at hf
    rcases hf with rfl | rfl | rfl <;> constructor <;> decide
  plain := by decide
  first_type := rfl
  type := by decide
  ids := by decide
  middle_info := by decide
  last_info := rfl

def short : Fragmented where
  first := frame 2 0 1 8 [0, 0, 0, 1, 0, 0, 0, 1]
  middle := []
  last := frame 3 0 1 8 [20]
  wellFormed := by
    intro f hf
    simp only [List.cons_append, List.nil_append, List.mem_cons, List.not_mem_nil, or_false] at hf
    rcases hf with rfl | rfl <;> constructor <;> decide
  plain := by decide
  first_type := rfl
  type := by decide
  ids := by decide
  middle_info := by decide
  last_info := rfl

def units : Fin 3 → WireMessage
  | 0 => .fragmented long
  | 1 => .fragmented short
  | 2 => .complete (frame 0 0xFF 1 0 []) (by constructor <;> decide) (.inr rfl)

/-- The second message overtakes the first. -/
def seq : List (Fin 3 × (Header × Bytes)) :=
  [(0, long.first), (1, short.first), (2, frame 0 0xFF 1 0 []), (0, frame 3 1 1 7 [10, 11]),
    (1, short.last), (0, long.last)]

def environment : ParseEnv Unit Bytes where
  security := ⟨fun s data _ _ _ => (s, some data), fun s data _ _ => .ok (s, some data)⟩
  decode := some
  validateJson := false

end Sample

/-- Each message arrives whole, at the place of its last frame. -/
theorem parse_interleaved_sample :
    (Sample.environment.parse .new () ((Sample.seq.map Prod.snd).map encodeFrame).flatten).map
        (fun p => p.res.map fun m => (m.messageId, m.binaryData)) =
      .ok [(0, []), (8, [20]), (7, [10, 11, 12])] := by
  have hids : DistinctIds Sample.units := by
    intro i j a b hi hj _ hm
    have hmid : ∀ k m, Sample.units k = .fragmented m → m.first.1.messageId = k + 7 := by
      intro k m hk
      match k with
      | 0 => cases hk; rfl
      | 1 => cases hk; rfl
      | 2 => cases hk
    have := hmid i a hi
    have := hmid j b hj
    omega
  have hseq : ∀ i, proj i Sample.seq = (Sample.units i).frames := by
    intro i
    match i with
    | 0 => rfl
    | 1 => rfl
    | 2 => rfl
  have heach : (Sample.environment.parseEach () ([2, 1, 0].map Sample.units)).map
      (fun q => q.2.map fun m => (m.messageId, m.binaryData)) = .ok [(0, []), (8, [20]), (7, [10, 11, 12])] := by
    decide +kernel
  have hparse := (parse_interleaved Sample.environment hids hseq Table.empty Table.empty ()).1
  rw [show completions Sample.seq = [2, 1, 0] from rfl] at hparse
  obtain ⟨q, hq, hmessages⟩ := map_eq_ok.mp heach
  obtain ⟨p, hp, rfl⟩ := map_eq_ok.mp (hparse.trans hq)
  exact map_eq_ok.mpr ⟨p, hp, hmessages⟩

end Atf
