import Atf.DispatchFifo

/-!
# Starting and stopping streams

The connection keeps its streams by file name, the dispatcher keeps the list of generators that it takes messages
from. The two agree as long as no file is started that is being streamed: its entry in the table is overwritten, but
the old stream stays in the list, out of reach of `StopStreaming`.

An event that raises may still have changed the tables: `StartStreaming` maps the stream before the pulse that may
raise. What such a pulse leaves of the turn, the window and the positions in the files is not said here (`Leads`).
-/

namespace Atf
open Lua

namespace FileConnection
variable {δ : Type} {security : Security δ} {c c' : FileConnection δ} {clock : Nat → Int}

/-! ### What an event does to the tables -/

/-- `c'` has the generators, the mapped files and the names of the streams of `c`. -/
structure SameTables (c c' : FileConnection δ) : Prop where
  generators : c'.generators = c.generators
  mapped : c'.mapped = c.mapped
  filenames : c'.streams.map (·.filename) = c.streams.map (·.filename)

namespace SameTables

theorem refl (c : FileConnection δ) : c.SameTables c := ⟨rfl, rfl, rfl⟩

theorem trans {c'' : FileConnection δ} (h : c.SameTables c') (h' : c'.SameTables c'') : c.SameTables c'' :=
  ⟨h'.generators.trans h.generators, h'.mapped.trans h.mapped, h'.filenames.trans h.filenames⟩

end SameTables

/-- The tables after an event, whether it raises or not. -/
def mapping (c : FileConnection δ) : Event → FileConnection δ
  | .startStreaming session version service encryption filename content bandwidth ts _ =>
    match FileStream.new filename content version session service encryption (bandwidth.getD (30 * 1024)) ts with
    | .ok stream => c.mapFile stream
    | .error _ => c
  | .stopStreaming filename =>
    match c.stopStreaming filename with
    | .ok c' => c'
    | .error _ => c
  | _ => c

/-- The states that an event can lead to. -/
def Leads (security : Security δ) (c : FileConnection δ) (e : Event) (c' : FileConnection δ) : Prop :=
  c.handle security e = .ok c' ∨ (∃ msg, c.handle security e = .error msg) ∧ (c.mapping e).SameTables c'

theorem filename_of_getMessage {sec sec' : δ} {timestamp : Int} {s s' : FileStream} {msg : Option Bytes}
    {timeout : Option Nat} (h : s.getMessage security sec timestamp = .ok (sec', msg, timeout, s')) :
    s'.filename = s.filename := by
  rcases FileStream.getMessage_cases h with
    ⟨-, rfl⟩ | ⟨-, ⟨m, -, -, rfl⟩ | ⟨-, data, frames, message, -, -, -, rfl⟩⟩
  · rfl
  · rfl
  · rfl

theorem filenames_set {n : Nat} {streams : List FileStream} {s s' : FileStream} (hs : streams[n]? = some s)
    (hname : s'.filename = s.filename) :
    (streams.set n s').map (·.filename) = streams.map (·.filename) := by
  obtain ⟨hlt, rfl⟩ := List.getElem?_eq_some_iff.mp hs
  have hlt' : n < (streams.map (·.filename)).length := by rwa [List.length_map]
  have hself : (streams.map (·.filename))[n] = s'.filename := by rw [List.getElem_map, hname]
  rw [List.map_set, ← hself, List.set_getElem_self]

theorem sameTables_getMessage {g : Gen} {msg : Option Bytes} {timeout : Option Nat}
    (h : c.getMessage security clock g = .ok (msg, timeout, c')) : c.SameTables c' := by
  cases g with
  | fbuf =>
    obtain ⟨⟨msg, fbuf⟩, -, h⟩ := bind_eq_ok.mp h
    cases h
    exact ⟨rfl, rfl, rfl⟩
  | stream n =>
    unfold getMessage at h
    dsimp only at h
    split at h
    · rename_i s hs
      obtain ⟨⟨sec, msg, timeout, s'⟩, hget, h⟩ := bind_eq_ok.mp h
      cases h
      exact ⟨rfl, rfl, filenames_set hs (filename_of_getMessage hget)⟩
    · cases h

theorem sameTables_keepMessage (c : FileConnection δ) (msg : Bytes) (g : Gen) : c.SameTables (c.keepMessage msg g) := by
  cases g with
  | fbuf => exact ⟨rfl, rfl, rfl⟩
  | stream n =>
    refine ⟨rfl, rfl, ?_⟩
    refine List.ext_getElem? fun i => ?_
    show ((c.streams.modify n (·.keepMessage msg)).map (·.filename))[i]? = _
    rw [List.getElem?_map, List.getElem?_modify, List.getElem?_map]
    cases c.streams[i]? with
    | none => rfl
    | some s =>
      by_cases hi : n = i
      · simp [hi, FileStream.keepMessage]
      · simp [hi]

theorem sameTables_tryNext {done : Bool} (h : c.tryNext security clock = .ok (done, c')) : c.SameTables c' := by
  obtain ⟨g, msg, timeout, c₁, -, hget, hcases⟩ := tryNext_cases h
  have h₀ := sameTables_getMessage hget
  have h₁ : c.SameTables c₁ := ⟨h₀.generators, h₀.mapped, h₀.filenames⟩
  rcases hcases with ⟨-, m, -, -, -, rfl⟩ | ⟨-, m, -, -, -, rfl⟩ | ⟨-, -, timer, rfl⟩
  · exact h₁.trans ⟨rfl, rfl, rfl⟩
  · exact h₁.trans (sameTables_keepMessage c₁ m g)
  · exact h₁.trans ⟨rfl, rfl, rfl⟩

theorem sameTables_bytesWritten {n : Nat} (h : c.bytesWritten security n clock = .ok c') : c.SameTables c' := by
  unfold bytesWritten at h
  split at h
  · cases h
    exact .refl c
  · refine tryLoop_invariant (P := c.SameTables) (fun c₁ done c₂ h₁ hnext => ?_) ?_ h
    · exact h₁.trans (sameTables_tryNext hnext)
    · exact ⟨rfl, rfl, rfl⟩

theorem Leads.sameTables {e : Event} (h : Leads security c e c') : (c.mapping e).SameTables c' := by
  rcases h with hok | ⟨-, hsame⟩
  · cases e with
    | send data clock =>
      obtain ⟨fbuf, -, hp⟩ := send_eq_ok hok
      have h₀ := sameTables_bytesWritten hp
      exact ⟨h₀.generators, h₀.mapped, h₀.filenames⟩
    | startStreaming session version service encryption filename content bandwidth ts clock =>
      obtain ⟨stream, hnew, hp⟩ := startStreaming_eq_ok hok
      rw [mapping, hnew]
      exact sameTables_bytesWritten hp
    | stopStreaming filename =>
      have hstop : c.stopStreaming filename = .ok c' := hok
      rw [mapping, hstop]
      exact .refl c'
    | timeout clock => exact sameTables_bytesWritten hok
    | bytesWritten n clock => exact sameTables_bytesWritten hok
  · exact hsame

/-! ### The generators and the mapped streams -/

/-- The generators are the buffer and the streams in the table, each once, and a stream is there under its name. -/
structure Consistent (c : FileConnection δ) : Prop where
  nodup : c.generators.Nodup
  generators : ∀ g, g ∈ c.generators ↔ g = .fbuf ∨ ∃ f n, c.mapped f = some n ∧ g = .stream n
  named : ∀ f n, c.mapped f = some n → (c.streams.map (·.filename))[n]? = some f

/-- There is a generator that streams the file. -/
def Streams (c : FileConnection δ) (f : String) : Prop :=
  ∃ n, .stream n ∈ c.generators ∧ (c.streams.map (·.filename))[n]? = some f

/-- The event does not start a stream of a file that is mapped. -/
def Fresh (c : FileConnection δ) : Event → Prop
  | .startStreaming _ version _ _ filename content _ _ _ =>
    c.mapped filename = none ∨ FRAME_SIZE version = none ∨ content = none
  | _ => True

/-- What is to hold of an event and the state it leads to. -/
structure StreamsStopped (e : Event) (c : FileConnection δ) : Prop where
  consistent : c.Consistent
  stopped : ∀ f, e = .stopStreaming f → ¬ c.Streams f

theorem SameTables.consistent_iff (h : c.SameTables c') : c'.Consistent ↔ c.Consistent := by
  constructor
  · rintro ⟨hnodup, hgen, hnamed⟩
    rw [h.generators] at hnodup
    rw [h.generators, h.mapped] at hgen
    rw [h.mapped, h.filenames] at hnamed
    exact ⟨hnodup, hgen, hnamed⟩
  · rintro ⟨hnodup, hgen, hnamed⟩
    rw [← h.generators] at hnodup
    rw [← h.generators, ← h.mapped] at hgen
    rw [← h.mapped, ← h.filenames] at hnamed
    exact ⟨hnodup, hgen, hnamed⟩

theorem consistent_new (window : Nat) (sec : δ) : (new window sec).Consistent := by
  refine ⟨List.nodup_singleton _, fun g => ?_, fun f n h => ?_⟩
  · simp [new]
  · cases h

namespace Consistent

theorem lt_of_mapped {f : String} {n : Nat} (hc : c.Consistent) (hf : c.mapped f = some n) : n < c.streams.length := by
  obtain ⟨hlt, -⟩ := List.getElem?_eq_some_iff.mp (hc.named f n hf)
  rwa [List.length_map] at hlt

theorem eq_of_mapped {f f' : String} {n : Nat} (hc : c.Consistent) (hf : c.mapped f = some n)
    (hf' : c.mapped f' = some n) : f = f' :=
  Option.some.inj ((hc.named f n hf).symm.trans (hc.named f' n hf'))

theorem mem_of_mapped {f : String} {n : Nat} (hc : c.Consistent) (hf : c.mapped f = some n) :
    .stream n ∈ c.generators :=
  (hc.generators _).mpr (.inr ⟨f, n, hf, rfl⟩)

theorem mapped_of_mem {n : Nat} (hc : c.Consistent) (h : .stream n ∈ c.generators) : ∃ f, c.mapped f = some n := by
  rcases (hc.generators _).mp h with heq | ⟨f, n', hf, heq⟩
  · cases heq
  · cases heq
    exact ⟨f, hf⟩

/-- A file that is not mapped is not streamed. -/
theorem not_streams {f : String} (hc : c.Consistent) (hf : c.mapped f = none) : ¬ c.Streams f := by
  rintro ⟨n, hmem, hname⟩
  obtain ⟨f', hf'⟩ := hc.mapped_of_mem hmem
  obtain rfl : f = f' := Option.some.inj (hname.symm.trans (hc.named f' n hf'))
  rw [hf] at hf'
  cases hf'

theorem mapFile (hc : c.Consistent) {stream : FileStream} (hfresh : c.mapped stream.filename = none) :
    (c.mapFile stream).Consistent := by
  have hnew : .stream c.streams.length ∉ c.generators := by
    intro hmem
    obtain ⟨f, hf⟩ := hc.mapped_of_mem hmem
    exact Nat.lt_irrefl _ (hc.lt_of_mapped hf)
  refine ⟨?_, fun g => ?_, fun f n hf => ?_⟩
  · exact hc.nodup.append (List.nodup_singleton _) (List.disjoint_singleton.mpr hnew)
  · show g ∈ c.generators ++ [.stream c.streams.length] ↔ _
    rw [List.mem_append, List.mem_singleton, hc.generators, or_assoc]
    refine or_congr_right ⟨?_, ?_⟩
    · rintro (⟨f, n, hf, rfl⟩ | rfl)
      · refine ⟨f, n, ?_, rfl⟩
        refine (Table.set_of_ne _ _ ?_).trans hf
        rintro rfl
        rw [hfresh] at hf
        cases hf
      · exact ⟨stream.filename, _, Table.set_self .., rfl⟩
    · rintro ⟨f, n, hf, rfl⟩
      have hf : c.mapped.set stream.filename c.streams.length f = some n := hf
      rw [Table.set_apply] at hf
      split at hf
      · cases hf
        exact .inr rfl
      · exact .inl ⟨f, n, hf, rfl⟩
  · have hf : c.mapped.set stream.filename c.streams.length f = some n := hf
    show ((c.streams ++ [stream]).map (·.filename))[n]? = some f
    rw [Table.set_apply] at hf
    split at hf
    · rename_i hname
      cases hf
      simp [hname]
    · rw [List.map_append, List.getElem?_append_left (by rw [List.length_map]; exact hc.lt_of_mapped hf)]
      exact hc.named f n hf

/-- The stream of a file that is mapped again stays a generator, but is in the table no more. -/
theorem not_mapFile (hc : c.Consistent) {stream : FileStream} {n : Nat} (hf : c.mapped stream.filename = some n) :
    ¬ (c.mapFile stream).Consistent := by
  intro hc'
  have hlt := hc.lt_of_mapped hf
  obtain ⟨f, hf'⟩ := hc'.mapped_of_mem (List.mem_append_left _ (hc.mem_of_mapped hf))
  have hf' : c.mapped.set stream.filename c.streams.length f = some n := hf'
  rw [Table.set_apply] at hf'
  split at hf'
  · cases hf'
    exact Nat.lt_irrefl _ hlt
  · rename_i hne
    exact hne (hc.eq_of_mapped hf' hf)

theorem unmapFile (hc : c.Consistent) {f : String} {n : Nat} (hf : c.mapped f = some n) :
    { c with generators := c.generators.erase (.stream n), mapped := c.mapped.erase f }.Consistent := by
  refine ⟨hc.nodup.erase _, fun g => ?_, fun f' n' hf' => ?_⟩
  · show g ∈ c.generators.erase (.stream n) ↔ _
    rw [hc.nodup.mem_erase_iff, hc.generators]
    constructor
    · rintro ⟨hne, rfl | ⟨f', n', hf', rfl⟩⟩
      · exact .inl rfl
      · refine .inr ⟨f', n', ?_, rfl⟩
        refine (Table.erase_of_ne _ ?_).trans hf'
        rintro rfl
        rw [hf] at hf'
        cases hf'
        exact hne rfl
    · rintro (rfl | ⟨f', n', hf', rfl⟩)
      · exact ⟨by simp, .inl rfl⟩
      · have hf' : c.mapped.erase f f' = some n' := hf'
        rw [Table.erase_apply] at hf'
        split at hf'
        · cases hf'
        · rename_i hne
          refine ⟨?_, .inr ⟨f', n', hf', rfl⟩⟩
          rintro heq
          cases heq
          exact hne (hc.eq_of_mapped hf' hf)
  · have hf' : c.mapped.erase f f' = some n' := hf'
    rw [Table.erase_apply] at hf'
    split at hf'
    · cases hf'
    · exact hc.named f' n' hf'

end Consistent

/-! ### Runs -/

/-- A stream is made exactly if the version is known and the file is there. -/
theorem FileStream.new_cases (filename : String) (content : Option Bytes) (version sessionId service : Nat)
    (encryption : Bool) (bandwidth : Nat) (ts : Int) :
    ((FRAME_SIZE version = none ∨ content = none) ∧
        ∃ msg, FileStream.new filename content version sessionId service encryption bandwidth ts = .error msg) ∨
      ¬ (FRAME_SIZE version = none ∨ content = none) ∧
        ∃ stream, FileStream.new filename content version sessionId service encryption bandwidth ts = .ok stream ∧
          stream.filename = filename := by
  unfold FileStream.new
  cases FRAME_SIZE version with
  | none => exact .inl ⟨.inl rfl, _, rfl⟩
  | some size =>
    cases content with
    | none => exact .inl ⟨.inr rfl, _, rfl⟩
    | some content => exact .inr ⟨by simp, _, rfl, rfl⟩

theorem consistent_mapping_iff (hc : c.Consistent) (e : Event) : (c.mapping e).Consistent ↔ c.Fresh e := by
  cases e with
  | startStreaming session version service encryption filename content bandwidth ts clock =>
    simp only [mapping, Fresh]
    rcases FileStream.new_cases filename content version session service encryption (bandwidth.getD (30 * 1024)) ts with
      ⟨hfails, msg, hnew⟩ | ⟨hmakes, stream, hnew, rfl⟩
    · rw [hnew]
      exact iff_of_true hc (.inr hfails)
    · rw [hnew, or_iff_left hmakes]
      cases hf : c.mapped stream.filename with
      | none => exact iff_of_true (hc.mapFile hf) rfl
      | some n => exact iff_of_false (hc.not_mapFile hf) nofun
  | stopStreaming filename =>
    refine iff_of_true ?_ trivial
    simp only [mapping, stopStreaming]
    cases hf : c.mapped filename with
    | none => exact hc
    | some n => exact hc.unmapFile hf
  | _ => exact iff_of_true hc trivial

theorem mapped_stopStreaming (c : FileConnection δ) (f : String) : (c.mapping (.stopStreaming f)).mapped f = none := by
  simp only [mapping, stopStreaming]
  cases hf : c.mapped f with
  | none => exact hf
  | some n => exact Table.erase_self ..

theorem streamsStopped_iff {e : Event} (hc : c.Consistent) (h : Leads security c e c') :
    StreamsStopped e c' ↔ c.Fresh e := by
  have htables := h.sameTables
  have hiff : c'.Consistent ↔ c.Fresh e := htables.consistent_iff.trans (consistent_mapping_iff hc e)
  constructor
  · intro hs
    exact hiff.mp hs.consistent
  · intro hfresh
    refine ⟨hiff.mpr hfresh, ?_⟩
    rintro f rfl
    refine (hiff.mpr hfresh).not_streams ?_
    rw [htables.mapped]
    exact mapped_stopStreaming c f

/-- Along every run of a connection the generators are the buffer and the mapped streams, and no file is streamed
after it is stopped, exactly if no file is started that is mapped. -/
theorem streams_stopped_iff (security : Security δ) (window : Nat) (sec : δ) {t : List (Event × FileConnection δ)}
    (ht : Run.Trace (Leads security) (new window sec) t) :
    (∀ p ∈ t, StreamsStopped p.1 p.2) ↔ Run.TraceAllows Fresh (new window sec) t :=
  Run.Trace.forall_iff (I := Consistent) (P := StreamsStopped) (fun _ _ hs => hs.consistent)
    (fun _ _ _ hc hl => streamsStopped_iff hc hl) ht (consistent_new window sec)

/-- The state that an event leads to, if a pulse that raises changes nothing else. -/
def settle (security : Security δ) (c : FileConnection δ) (e : Event) : FileConnection δ :=
  match c.handle security e with
  | .ok c' => c'
  | .error _ => c.mapping e

theorem leads_settle (c : FileConnection δ) (e : Event) : Leads security c e (settle security c e) := by
  unfold settle
  cases hc : c.handle security e with
  | ok c' => exact .inl hc
  | error msg => exact .inr ⟨⟨msg, hc⟩, .refl _⟩

def startVideo : Event :=
  .startStreaming 1 3 SERVICE_TYPE.VIDEO false "video" (some [9, 8, 7]) (some 4) 0 (fun _ => 0)

/-- A file is streamed, stopped and streamed again. -/
theorem streams_stopped_again :
    let t := Run.trace (settle transparent) (new 20 ()) [startVideo, .stopStreaming "video", startVideo]
    (∀ p ∈ t, StreamsStopped p.1 p.2) ∧ t.length = 3 := by
  refine ⟨(streams_stopped_iff transparent 20 () (.of_next leads_settle _ _)).mpr ?_, rfl⟩
  exact ⟨.inl rfl, trivial, .inl (by decide +kernel), trivial⟩

/-- A file that is started twice is streamed after it is stopped. -/
theorem streams_after_stop : ∃ c₁ c₂ c₃ : FileConnection Unit,
    Run.Trace (Leads transparent) (new 20 ()) [(startVideo, c₁), (startVideo, c₂), (.stopStreaming "video", c₃)] ∧
      c₃.generators = [.fbuf, .stream 0] ∧ c₃.Streams "video" ∧ ¬ StreamsStopped (.stopStreaming "video") c₃ := by
  refine ⟨_, _, _, .of_next leads_settle _ [startVideo, startVideo, .stopStreaming "video"], ?_⟩
  have hgen : (([startVideo, startVideo, .stopStreaming "video"].foldl (settle transparent) (new 20 ())).generators) =
      [.fbuf, .stream 0] := by decide +kernel
  have hnames : (([startVideo, startVideo, .stopStreaming "video"].foldl (settle transparent)
      (new 20 ())).streams.map (·.filename)) = ["video", "video"] := by decide +kernel
  have hstreams : ([startVideo, startVideo, .stopStreaming "video"].foldl (settle transparent)
      (new 20 ())).Streams "video" := by
    refine ⟨0, ?_, ?_⟩
    · rw [hgen]
      exact List.mem_cons_of_mem _ (List.mem_singleton.mpr rfl)
    · rw [hnames]
      rfl
  exact ⟨hgen, hstreams, fun hs => hs.stopped "video" rfl hstreams⟩

end FileConnection

end Atf
