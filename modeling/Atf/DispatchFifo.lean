import Atf.DispatchCredit
import Atf.Wire
import Atf.Lib.Interleave
import Mathlib.Data.List.Forall2

/-!
# The dispatcher is an exactly-once FIFO

A frame given to `Send` is in one of three places: passed to the adapter, in the `keep` slot of the
buffer, or in the part of the buffer file not read yet, in this order (`FileStorage.Holds`). A stream is
the same with the chunks read so far in place of the frames (`FileStream.Holds`). The dispatcher moves a
message from the file to the adapter or to the slot, which is empty whenever a message was just taken, so
nothing is overwritten.
-/

namespace Atf
open Lua Interleave

/-! ### The buffer file -/

def fileRecord (m : Bytes) : Bytes := le32 m.length ++ m

def Sendable (frames : List Bytes) : Prop := ∀ m ∈ frames, m ≠ [] ∧ m.length < 2 ^ 32

namespace FileStorage
variable {fs fs' : FileStorage} {out written : List Bytes} {m : Bytes}

/-- Of the frames `written`, those in `out` have left the storage. -/
def Holds (fs : FileStorage) (out written : List Bytes) : Prop :=
  ∃ todo, written = out ++ fs.keep.toList ++ todo ∧ fs.rpos ≤ fs.file.length ∧
    fs.file.drop fs.rpos = (todo.map fileRecord).flatten ∧ fs.unflushed = []

theorem Holds.start : new.Holds [] [] := ⟨[], rfl, Nat.le_refl _, rfl, rfl⟩

theorem writeMessage_eq (hm : m.length < 2 ^ 32) :
    fs.writeMessage m = .ok { fs with unflushed := fs.unflushed ++ fileRecord m } := by
  have hn : Bit32.norm m.length = m.length := Bit32.norm_of_lt hm
  have hr : ∀ k, Bit32.rshift m.length k = m.length / 2 ^ k := fun k => by
    rw [Bit32.rshift, hn, Nat.shiftRight_eq_div_pow]
  have hb : ∀ n : Nat, n < 2 ^ 32 → Bit32.band n 0xff = n % 2 ^ 8 := fun n hlt =>
    (Bit32.band_mask _ 8 (by decide)).trans (by rw [Bit32.norm_of_lt hlt])
  simp only [writeMessage, hr, hb m.length hm, hb (m.length / 2 ^ 8) (by omega),
    hb (m.length / 2 ^ 16) (by omega), hb (m.length / 2 ^ 24) (by omega)]
  rw [char_of_lt (by
    intro n hn
    simp only [List.mem_cons, List.not_mem_nil, or_false] at hn
    omega)]
  simp [bind, Except.bind, pure, Except.pure, fileRecord, le32, be32, ← UInt8.toNat_inj]

theorem foldlM_writeMessage {data : List Bytes} (hd : Sendable data) (fs : FileStorage) :
    data.foldlM (fun fs chunk => fs.writeMessage chunk) fs =
      .ok { fs with unflushed := fs.unflushed ++ (data.map fileRecord).flatten } := by
  induction data generalizing fs with
  | nil => simp [pure, Except.pure]
  | cons m data ih =>
    rw [List.foldlM_cons, writeMessage_eq (hd m (by simp)).2]
    refine (ih (fun m hm => hd m (by simp [hm])) _).trans ?_
    simp

theorem Holds.send {data : List Bytes} (h : fs.Holds out written) (hd : Sendable data)
    (hw : data.foldlM (fun fs chunk => fs.writeMessage chunk) fs = .ok fs') :
    fs'.flush.Holds out (written ++ data) := by
  obtain ⟨todo, rfl, hle, hfile, hu⟩ := h
  rw [foldlM_writeMessage hd] at hw
  cases hw
  refine ⟨todo ++ data, by simp [flush], ?_, ?_, rfl⟩
  · simp only [flush, List.length_append]
    omega
  · simp only [flush, hu, List.nil_append]
    rw [List.drop_append_of_le_length hle, hfile]
    simp

theorem getMessage_of_record {rest : Bytes} (hk : fs.keep = none) (hm : m ≠ []) (hl : m.length < 2 ^ 32)
    (hfile : fs.file.drop fs.rpos = fileRecord m ++ rest) :
    fs.getMessage = .ok (some m, { fs with rpos := fs.rpos + 4 + m.length }) := by
  have hlen : fs.file.length - fs.rpos = 4 + m.length + rest.length := by
    have := congrArg List.length hfile
    simpa [fileRecord, Nat.add_assoc] using this
  have hpos := List.length_pos_of_ne_nil hm
  have h4 : Lua.read fs.file fs.rpos 4 = some (le32 m.length) := by
    refine read_eq_some.mpr ⟨by omega, ?_⟩
    rw [hfile]
    simp [fileRecord, le32, be32]
  have hrest : fs.file.drop (fs.rpos + 4) = m ++ rest := by
    rw [← List.drop_drop, hfile]
    simp [fileRecord, le32, be32]
  have hmsg : Lua.read fs.file (fs.rpos + 4) m.length = some m := by
    refine read_eq_some.mpr ⟨by omega, ?_⟩
    rw [hrest]
    simp
  have hword := word32_be32 m.length
  rw [Nat.mod_eq_of_lt hl] at hword
  simp only [getMessage, hk, read, h4]
  simp only [byte, le32, be32, List.reverse_cons, List.reverse_nil, List.nil_append, List.cons_append,
    bind, Except.bind, pure, Except.pure, List.getElem?_cons_succ, List.getElem?_cons_zero, Option.map_some,
    number_some, List.length_cons, List.length_nil, lshift_byte _ _ (Nat.le_refl 24),
    lshift_byte _ 16 (by decide), lshift_byte _ 8 (by decide), Nat.reduceSub, Nat.reduceAdd]
  rw [← word32, hword, hmsg]

theorem Holds.keepMessage (h : fs.Holds (out ++ [m]) written) (hk : fs.keep = none) :
    (fs.keepMessage m).Holds out written := by
  obtain ⟨todo, hw, hle, hfile, hu⟩ := h
  refine ⟨todo, ?_, hle, hfile, hu⟩
  simpa [hk, FileStorage.keepMessage] using hw

/-- `GetMessage` takes the next frame that has not left, if there is one. -/
theorem Holds.getMessage (h : fs.Holds out written) (hw : Sendable written) :
    (fs.getMessage = .ok (none, fs) ∧ fs.keep = none ∧ out = written) ∨
      ∃ m fs', fs.getMessage = .ok (some m, fs') ∧ m ∈ written ∧ fs'.keep = none ∧
        fs'.Holds (out ++ [m]) written := by
  obtain ⟨todo, rfl, hle, hfile, hu⟩ := h
  cases hk : fs.keep with
  | some m =>
    refine .inr ⟨m, { fs with keep := none }, ?_, by simp, rfl, todo, by simp, hle, hfile, hu⟩
    simp only [FileStorage.getMessage, hk]
    rfl
  | none =>
    cases todo with
    | nil =>
      refine .inl ⟨?_, rfl, by simp⟩
      have hend : fs.file.length ≤ fs.rpos := List.drop_eq_nil_iff.mp hfile
      simp only [FileStorage.getMessage, hk, FileStorage.read, Lua.read, if_pos hend]
      rfl
    | cons m todo =>
      obtain ⟨hne, hlt⟩ := hw m (by simp)
      rw [List.map_cons, List.flatten_cons] at hfile
      have hlen := congrArg List.length hfile
      simp only [List.length_drop, List.length_append, fileRecord, length_le32] at hlen
      refine .inr ⟨m, _, getMessage_of_record hk hne hlt hfile, by simp, hk, todo, by simp [hk], ?_, ?_, hu⟩
      · show fs.rpos + 4 + m.length ≤ fs.file.length
        omega
      · show fs.file.drop (fs.rpos + 4 + m.length) = (todo.map fileRecord).flatten
        rw [Nat.add_assoc, ← List.drop_drop, hfile]
        exact List.drop_left' (by simp [fileRecord])

end FileStorage

/-! ### Streams -/

section Compose
variable {δ : Type} {security : Security δ} {sec sec' : δ} {message message' : OutMsg}

theorem getBinaryFrame_ne_nil {frame : Bytes}
    (h : getBinaryFrame security sec message = .ok (sec', frame, message')) : frame ≠ [] := by
  have hend : ∀ (sec : δ) (data : Bytes) (message : OutMsg), (do
      let header ← createProtocolHeader message
      pure (sec, header ++ data, message)) = Except.ok (sec', frame, message') → frame ≠ [] := by
    intro sec data message h
    obtain ⟨header, hh, h⟩ := bind_eq_ok.mp h
    cases h
    refine List.ne_nil_of_length_pos ?_
    rw [List.length_append, length_createProtocolHeader hh]
    exact Nat.add_pos_left (by decide) _
  obtain ⟨max, -, h⟩ := bind_eq_ok.mp h
  dsimp only at h
  split at h
  · split at h
    · cases h
    · obtain ⟨⟨sec₁, data⟩, -, h⟩ := bind_eq_ok.mp h
      exact hend _ _ _ h
  · obtain ⟨⟨sec₁, data⟩, -, h⟩ := bind_eq_ok.mp h
    exact hend _ _ _ h

/-- Even an empty chunk is sent with a header. -/
theorem composeData_ne_nil {max : Nat} {frames : List Bytes}
    (h : composeData security sec max message = .ok (sec', frames, message')) : frames.flatten ≠ [] := by
  have hone : ∀ {sec sec₁ : δ} {message message₁ : OutMsg} {frame : Bytes},
      getBinaryFrame security sec message = .ok (sec₁, frame, message₁) → [frame].flatten ≠ [] := by
    intro sec sec₁ message message₁ frame hf
    rw [List.flatten_singleton]
    exact getBinaryFrame_ne_nil hf
  unfold composeData at h
  split at h
  · split at h
    · obtain ⟨⟨sec₁, count, rest⟩, -, h⟩ := bind_eq_ok.mp h
      obtain ⟨total, -, h⟩ := bind_eq_ok.mp h
      obtain ⟨n, -, h⟩ := bind_eq_ok.mp h
      obtain ⟨⟨sec₂, first, message₂⟩, hf, h⟩ := bind_eq_ok.mp h
      cases h
      intro hnil
      exact getBinaryFrame_ne_nil hf (List.append_eq_nil_iff.mp hnil).1
    · obtain ⟨⟨sec₁, frame, message₁⟩, hf, h⟩ := bind_eq_ok.mp h
      cases h
      exact hone hf
  · obtain ⟨⟨sec₁, frame, message₁⟩, hf, h⟩ := bind_eq_ok.mp h
    cases h
    exact hone hf

theorem compose_ne_nil {frames : List Bytes}
    (h : compose security sec message = .ok (sec', frames, message')) : frames.flatten ≠ [] := by
  obtain ⟨max, -, h⟩ := bind_eq_ok.mp h
  split at h
  · obtain ⟨data, -, h⟩ := bind_eq_ok.mp h
    exact composeData_ne_nil h
  · exact composeData_ne_nil h

end Compose

namespace FileStream
variable {δ : Type} {security : Security δ} {s s' : FileStream} {out : List Bytes} {m : Bytes}

/-- `msg` is the chunk as `Compose` frames it. -/
def Carries (security : Security δ) (s : FileStream) (chunk msg : Bytes) : Prop :=
  ∃ messageId sec sec' frames message, compose security sec (s.header messageId chunk) =
    .ok (sec', frames, message) ∧ msg = frames.flatten

theorem Carries.ne_nil {chunk : Bytes} (h : s.Carries security chunk m) : m ≠ [] := by
  obtain ⟨_, _, _, _, _, hc, rfl⟩ := h
  exact compose_ne_nil hc

/-- The messages `out` have left the stream, and they carry what has been read but for the kept message. -/
def Holds (security : Security δ) (s : FileStream) (out : List Bytes) : Prop :=
  ∃ chunks : List Bytes, chunks.flatten = s.content.take s.rpos ∧
    List.Forall₂ (s.Carries security) chunks (out ++ s.keep.toList)

theorem Holds.start {filename : String} {content : Option Bytes} {version sessionId service bandwidth : Nat}
    {encryption : Bool} {ts : Int}
    (h : new filename content version sessionId service encryption bandwidth ts = .ok s) :
    s.Holds security [] := by
  unfold new at h
  split at h
  · dsimp only at h
    split at h
    · cases h
      exact ⟨[], by simp, .nil⟩
    · cases h
  · cases h

theorem Holds.keepMessage (h : s.Holds security (out ++ [m])) (hk : s.keep = none) :
    (s.keepMessage m).Holds security out := by
  obtain ⟨chunks, hflat, hall⟩ := h
  rw [hk, Option.toList_none, List.append_nil] at hall
  exact ⟨chunks, hflat, hall⟩

/-- What `GetMessage` can do: return nothing, the kept message, or the next chunk of the file as a message. -/
theorem getMessage_cases {sec sec' : δ} {timestamp : Int} {msg : Option Bytes} {timeout : Option Nat}
    (hget : s.getMessage security sec timestamp = .ok (sec', msg, timeout, s')) :
    (msg = none ∧ s' = s) ∨
      exceeds (s.bytesSent + s.chunksize) (timestamp - s.ts) s.bandwidth = false ∧
        ((∃ m, s.keep = some m ∧ msg = some m ∧ s' = { s with keep := none }) ∨
          s.keep = none ∧ ∃ data frames message, Lua.read s.content s.rpos s.chunksize = some data ∧
            compose security sec (s.header (s.messageId + 1) data) = .ok (sec', frames, message) ∧
            msg = some frames.flatten ∧
            s' = { s with rpos := s.rpos + data.length, bytesSent := s.bytesSent + data.length
                          messageId := s.messageId + 1 }) := by
  unfold FileStream.getMessage at hget
  dsimp only at hget
  split at hget
  · cases hget
    exact .inl ⟨rfl, rfl⟩
  rename_i hlimit
  cases hk : s.keep with
  | some m =>
    simp only [hk] at hget
    cases hget
    exact .inr ⟨Bool.eq_false_of_not_eq_true hlimit, .inl ⟨m, rfl, rfl, rfl⟩⟩
  | none =>
    simp only [hk] at hget
    cases hr : Lua.read s.content s.rpos s.chunksize with
    | none =>
      simp only [hr] at hget
      cases hget
      exact .inl ⟨rfl, rfl⟩
    | some data =>
      simp only [hr] at hget
      obtain ⟨⟨sec₁, frames, message⟩, hc, hget⟩ := bind_eq_ok.mp hget
      cases hget
      refine .inr ⟨Bool.eq_false_of_not_eq_true hlimit, .inr ⟨rfl, data, frames, message, rfl, hc, rfl, ?_⟩⟩
      rw [← hk]

/-- `GetMessage` returns nothing, or a message that carries what the stream holds next. -/
theorem Holds.getMessage {sec sec' : δ} {timestamp : Int} {msg : Option Bytes} {timeout : Option Nat}
    (h : s.Holds security out)
    (hget : s.getMessage security sec timestamp = .ok (sec', msg, timeout, s')) :
    (msg = none ∧ s'.Holds security out) ∨
      ∃ m, msg = some m ∧ m ≠ [] ∧ s'.keep = none ∧ s'.Holds security (out ++ [m]) := by
  obtain ⟨chunks, hflat, hall⟩ := h
  rcases getMessage_cases hget with
    ⟨rfl, rfl⟩ | ⟨-, ⟨m, hk, rfl, rfl⟩ | ⟨hk, data, frames, message, hr, hc, rfl, rfl⟩⟩
  · exact .inl ⟨rfl, chunks, hflat, hall⟩
  · rw [hk, Option.toList_some] at hall
    obtain ⟨chunk, hcar⟩ : ∃ chunk, s.Carries security chunk m := by
      have hlast := List.forall₂_drop_append chunks out [m] hall
      obtain ⟨chunk, -, hcar, -⟩ := List.forall₂_cons_right_iff.mp hlast
      exact ⟨chunk, hcar⟩
    exact .inr ⟨m, rfl, hcar.ne_nil, rfl, chunks, hflat, by rw [Option.toList_none, List.append_nil]; exact hall⟩
  · rw [hk, Option.toList_none, List.append_nil] at hall
    have hcar : s.Carries security data frames.flatten := ⟨_, _, _, _, _, hc, rfl⟩
    refine .inr ⟨_, rfl, hcar.ne_nil, hk, chunks ++ [data], ?_, ?_⟩
    · rw [List.flatten_append, List.flatten_singleton, hflat]
      exact take_append_read hr
    · show List.Forall₂ _ _ (out ++ [frames.flatten] ++ s.keep.toList)
      rw [hk, Option.toList_none, List.append_nil]
      exact List.rel_append hall (.cons hcar .nil)

end FileStream

/-! ### The dispatcher -/

namespace FileConnection
variable {δ : Type} {security : Security δ} {c c' : FileConnection δ} {clock : Nat → Int}
  {written : List Bytes}

/-- What has left each generator is what the adapter got from it. -/
structure Fifo (security : Security δ) (written : List Bytes) (c : FileConnection δ) : Prop where
  sendable : Sendable written
  storage : c.fbuf.Holds (proj .fbuf c.sent) written
  streams : ∀ (n : Nat) (s : FileStream), c.streams[n]? = some s → s.Holds security (proj (.stream n) c.sent)
  fresh : ∀ n, c.streams.length ≤ n → proj (.stream n) c.sent = []

theorem proj_pass_self (c : FileConnection δ) (g : Gen) (m : Bytes) :
    proj g (c.pass g m).sent = proj g c.sent ++ [m] := by
  simp [pass, proj_append]

theorem proj_pass_of_ne (c : FileConnection δ) {g g' : Gen} (h : g ≠ g') (m : Bytes) :
    proj g' (c.pass g m).sent = proj g' c.sent := by
  simp [pass, proj_append, proj_cons_of_ne h]

/-- The buffer after its message was taken: the message is passed on, or put back. -/
theorem Fifo.storage_taken {fbuf : FileStorage} {m : Bytes} (h : Fifo security written c)
    (hk : fbuf.keep = none) (ht : fbuf.Holds (proj .fbuf c.sent ++ [m]) written) :
    Fifo security written (pass { c with fbuf } .fbuf m) ∧
      Fifo security written (keepMessage { c with fbuf } m .fbuf) := by
  refine ⟨⟨h.sendable, ?_, ?_, ?_⟩, ⟨h.sendable, ht.keepMessage hk, h.streams, h.fresh⟩⟩
  · rw [proj_pass_self]
    exact ht
  · intro n s hs
    rw [proj_pass_of_ne _ (by simp)]
    exact h.streams n s hs
  · intro n hn
    rw [proj_pass_of_ne _ (by simp)]
    exact h.fresh n hn

theorem Fifo.stream_set {n : Nat} {s s' : FileStream} (h : Fifo security written c) (sec : δ)
    (hs : c.streams[n]? = some s) (hh : s'.Holds security (proj (.stream n) c.sent)) :
    Fifo security written { c with sec, streams := c.streams.set n s' } := by
  refine ⟨h.sendable, h.storage, ?_, ?_⟩
  · intro n' s'' hs''
    by_cases hn : n' = n
    · subst hn
      rw [List.getElem?_set_self (List.getElem?_eq_some_iff.mp hs).1] at hs''
      cases hs''
      exact hh
    · rw [List.getElem?_set_ne (Ne.symm hn)] at hs''
      exact h.streams n' s'' hs''
  · intro n' hn'
    rw [List.length_set] at hn'
    exact h.fresh n' hn'

/-- A stream after its message was taken: the message is passed on, or put back. -/
theorem Fifo.stream_taken {n : Nat} {s s' : FileStream} {m : Bytes} (h : Fifo security written c) (sec : δ)
    (hs : c.streams[n]? = some s) (hk : s'.keep = none)
    (ht : s'.Holds security (proj (.stream n) c.sent ++ [m])) :
    Fifo security written (pass { c with sec, streams := c.streams.set n s' } (.stream n) m) ∧
      Fifo security written (keepMessage { c with sec, streams := c.streams.set n s' } m (.stream n)) := by
  have hlt := (List.getElem?_eq_some_iff.mp hs).1
  refine ⟨⟨h.sendable, ?_, ?_, ?_⟩, ?_⟩
  · rw [proj_pass_of_ne _ (by simp)]
    exact h.storage
  · intro n' s'' hs''
    by_cases hn : n' = n
    · subst hn
      rw [proj_pass_self]
      simp only [pass, List.getElem?_set_self hlt] at hs''
      cases hs''
      exact ht
    · rw [proj_pass_of_ne _ (by simp [Ne.symm hn])]
      simp only [pass, List.getElem?_set_ne (Ne.symm hn)] at hs''
      exact h.streams n' s'' hs''
  · intro n' hn'
    simp only [pass, List.length_set] at hn'
    rw [proj_pass_of_ne _ (by simp only [ne_eq, Gen.stream.injEq]; omega)]
    exact h.fresh n' hn'
  · have heq : keepMessage { c with sec, streams := c.streams.set n s' } m (.stream n) =
        { c with sec, streams := c.streams.set n (s'.keepMessage m) } := by
      simp only [keepMessage, List.modify_eq_set_getElem?, List.getElem?_set_self hlt, Option.map_eq_map,
        Option.map_some, Option.getD_some, List.set_set]
    rw [heq]
    exact h.stream_set sec hs (ht.keepMessage hk)

theorem Fifo.tryNext {done : Bool} (h : Fifo security written c)
    (hs : c.tryNext security clock = .ok (done, c')) : Fifo security written c' := by
  obtain ⟨g, msg, timeout, c₁, -, hget, hcase⟩ := tryNext_cases hs
  have h0 : Fifo security written { c with idx := c.nextIdx } := ⟨h.sendable, h.storage, h.streams, h.fresh⟩
  cases g with
  | fbuf =>
    obtain ⟨⟨msg, fbuf⟩, hm, hget⟩ := bind_eq_ok.mp hget
    cases hget
    rcases h0.storage.getMessage h.sendable with ⟨hnone, -, -⟩ | ⟨m, fs, hsome, hmem, hk, ht⟩
    · cases hnone.symm.trans hm
      rcases hcase with ⟨-, m, hm', -⟩ | ⟨-, m, hm', -⟩ | ⟨-, -, timer, rfl⟩
      · cases hm'
      · cases hm'
      · exact ⟨h.sendable, h.storage, h.streams, h.fresh⟩
    · cases hsome.symm.trans hm
      obtain ⟨hpass, hkeep⟩ := h0.storage_taken hk ht
      rcases hcase with ⟨-, m', hm', -, -, rfl⟩ | ⟨-, m', hm', -, -, rfl⟩ | ⟨-, hnil, -⟩
      · cases hm'; exact hpass
      · cases hm'; exact hkeep
      · exact absurd hnil (h.sendable m hmem).1
  | stream n =>
    unfold getMessage at hget
    dsimp only at hget
    split at hget
    · rename_i s hn
      obtain ⟨⟨sec, msg, timeout, s'⟩, hm, hget⟩ := bind_eq_ok.mp hget
      cases hget
      rcases (h0.streams n s hn).getMessage hm with ⟨rfl, hh⟩ | ⟨m, rfl, hne, hk, ht⟩
      · have h1 := h0.stream_set sec hn hh
        rcases hcase with ⟨-, m, hm', -⟩ | ⟨-, m, hm', -⟩ | ⟨-, -, timer, rfl⟩
        · cases hm'
        · cases hm'
        · exact ⟨h1.sendable, h1.storage, h1.streams, h1.fresh⟩
      · obtain ⟨hpass, hkeep⟩ := h0.stream_taken sec hn hk ht
        rcases hcase with ⟨-, m', hm', -, -, rfl⟩ | ⟨-, m', hm', -, -, rfl⟩ | ⟨-, hnil, -⟩
        · cases hm'; exact hpass
        · cases hm'; exact hkeep
        · exact absurd hnil hne
    · cases hget

theorem Fifo.bytesWritten {n : Nat} (h : Fifo security written c)
    (hs : c.bytesWritten security n clock = .ok c') : Fifo security written c' := by
  unfold FileConnection.bytesWritten at hs
  split at hs
  · cases hs
    exact h
  · refine tryLoop_invariant (fun c done c' h hs => h.tryNext hs) ?_ hs
    exact ⟨h.sendable, h.storage, h.streams, h.fresh⟩

theorem Fifo.send {data : List Bytes} {fbuf : FileStorage} (h : Fifo security written c) (hd : Sendable data)
    (hw : data.foldlM (fun fbuf chunk => fbuf.writeMessage chunk) c.fbuf = .ok fbuf) :
    Fifo security (written ++ data) { c with fbuf := fbuf.flush } := by
  refine ⟨?_, h.storage.send hd hw, h.streams, h.fresh⟩
  intro m hm
  rcases List.mem_append.mp hm with hm | hm
  · exact h.sendable m hm
  · exact hd m hm

theorem Fifo.mapFile {s : FileStream} (h : Fifo security written c) (hs : s.Holds security []) :
    Fifo security written (c.mapFile s) := by
  refine ⟨h.sendable, h.storage, ?_, ?_⟩
  · intro n s' hs'
    by_cases hn : n < c.streams.length
    · rw [FileConnection.mapFile, List.getElem?_append_left hn] at hs'
      exact h.streams n s' hs'
    · have hle : c.streams.length ≤ n := Nat.le_of_not_lt hn
      rw [FileConnection.mapFile, List.getElem?_append_right hle, List.getElem?_singleton] at hs'
      split at hs'
      · cases hs'
        rw [show proj (.stream n) (c.mapFile s).sent = [] from h.fresh n hle]
        exact hs
      · cases hs'
  · intro n hn
    simp only [FileConnection.mapFile, List.length_append, List.length_singleton] at hn
    exact h.fresh n (by omega)

/-- The frames given to `Send` are not empty and their length fits in four bytes. -/
def SendsFrames (_ : History δ) (e : Event) : Prop := Sendable e.frames

instance (h : History δ) (e : Event) : Decidable (SendsFrames h e) :=
  inferInstanceAs (Decidable (∀ m ∈ e.frames, m ≠ [] ∧ m.length < 2 ^ 32))

theorem Fifo.step {h h' : History δ} {e : Event} (hf : Fifo security h.written h.conn)
    (hd : Sendable e.frames) (hs : h.step security e = .ok h') : Fifo security h'.written h'.conn := by
  obtain ⟨hconn, hwritten, -⟩ := History.step_eq_ok hs
  cases e with
  | send data clock =>
    obtain ⟨fbuf, hw, hp⟩ := send_eq_ok hconn
    rw [hwritten]
    exact (hf.send hd hw).bytesWritten hp
  | startStreaming session version service encryption filename content bandwidth ts clock =>
    obtain ⟨stream, hnew, hp⟩ := startStreaming_eq_ok hconn
    rw [hwritten.trans (List.append_nil _)]
    exact (hf.mapFile (FileStream.Holds.start hnew)).bytesWritten hp
  | stopStreaming filename =>
    obtain ⟨n, hn⟩ := stopStreaming_eq_ok hconn
    rw [hwritten.trans (List.append_nil _), hn]
    exact ⟨hf.sendable, hf.storage, hf.streams, hf.fresh⟩
  | timeout clock =>
    rw [hwritten.trans (List.append_nil _)]
    exact hf.bytesWritten hconn
  | bytesWritten n clock =>
    rw [hwritten.trans (List.append_nil _)]
    exact hf.bytesWritten hconn

theorem Fifo.start (security : Security δ) (window : Nat) (sec : δ) :
    Fifo security [] (FileConnection.new window sec) :=
  ⟨by simp [Sendable], .start, by simp [FileConnection.new], fun _ _ => rfl⟩

/-- In every reachable state, what has been sent of the buffer is a first part of the frames written to it, and what has
been sent of a stream are messages that carry a first part of its file. -/
theorem sent_in_order {window : Nat} {sec : δ} {h : History δ}
    (hr : Run.Reaches (History.step security) SendsFrames (.start window sec) h) :
    proj .fbuf h.conn.sent <+: h.written ∧
      ∀ n s, h.conn.streams[n]? = some s → ∃ chunks : List Bytes, chunks.flatten <+: s.content ∧
        List.Forall₂ (s.Carries security) chunks (proj (.stream n) h.conn.sent) := by
  have hf : Fifo security h.written h.conn :=
    hr.invariant (I := fun h => Fifo security h.written h.conn) (.start security window sec)
      fun _ _ _ hf hd hs => hf.step hd hs
  refine ⟨?_, ?_⟩
  · obtain ⟨todo, hw, -⟩ := hf.storage
    exact ⟨h.conn.fbuf.keep.toList ++ todo, by rw [hw, List.append_assoc]⟩
  · intro n s hs
    obtain ⟨chunks, hflat, hall⟩ := hf.streams n s hs
    refine ⟨chunks.take (proj (.stream n) h.conn.sent).length, ?_, List.forall₂_take_append _ _ _ hall⟩
    have hpre : (chunks.take (proj (.stream n) h.conn.sent).length).flatten <+: chunks.flatten :=
      ⟨(chunks.drop (proj (.stream n) h.conn.sent).length).flatten, by
        rw [← List.flatten_append, List.take_append_drop]⟩
    exact hpre.trans (hflat ▸ List.take_prefix _ _)

/-- A frame of two bytes of the file has been sent, and the frame that was written; they are the first of theirs. -/
theorem sent_in_order_sample :
    ∃ h, Run.exec (History.step transparent) SendsFrames (.start 20 ()) sampleEvents = some h ∧
      proj .fbuf h.conn.sent = [[1, 2, 3, 4, 5, 6, 7]] ∧
      proj (.stream 0) h.conn.sent = [[49, 11, 0, 1, 0, 0, 0, 2, 0, 0, 0, 2, 9, 8]] ∧
      proj .fbuf h.conn.sent <+: h.written := by
  have hrun : (Run.exec (History.step transparent) SendsFrames (.start 20 ()) sampleEvents).map (fun h =>
      (proj .fbuf h.conn.sent, proj (.stream 0) h.conn.sent)) =
      some ([[1, 2, 3, 4, 5, 6, 7]], [[49, 11, 0, 1, 0, 0, 0, 2, 0, 0, 0, 2, 9, 8]]) := by decide +kernel
  obtain ⟨h, hh, heq⟩ := Option.map_eq_some_iff.mp hrun
  obtain ⟨hfbuf, hstream⟩ := Prod.mk.inj heq
  exact ⟨h, hh, hfbuf, hstream, (sent_in_order (.of_exec .start hh)).1⟩

end FileConnection

end Atf
