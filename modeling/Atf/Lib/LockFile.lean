import Atf.Lib.Run
import Mathlib.Logic.Function.Basic

/-!
# Workers that share files under a lock file

Every worker runs the same program over shared files and one lock file. The program is a command for each
location: try to create the lock file, act on the shared files, or remove the lock file. A run interleaves
single commands of the workers; a worker may also be interrupted, and its handler removes the lock file
whoever created it, so `Quiet` asks that no worker is in its critical section then.

A program is `Disciplined` if it touches the files only between the creation and the removal of the lock
file. Then at most one worker is inside, and an assertion for each location together with a resource
invariant `Free` (what the files are like when nobody is inside) is checked command by command
(`Asserted.run`).
-/

namespace LockFile

inductive Cmd (σ ℓ : Type)
  | create (won lost : ℓ)
  | act (f : σ → ℓ × σ)
  | remove (after : ℓ)
  | halt

structure Program (σ ℓ : Type) where
  code : ℓ → Cmd σ ℓ
  inside : ℓ → Bool
  interrupted : ℓ

structure State (ω σ ℓ : Type) where
  lock : Bool
  shared : σ
  worker : ω → ℓ

inductive Event (ω : Type)
  | step (w : ω)
  | interrupt (w : ω)

variable {ω σ ℓ : Type} [DecidableEq ω] (P : Program σ ℓ)

def Program.step (s : State ω σ ℓ) : Event ω → State ω σ ℓ
  | .step w =>
    match P.code (s.worker w) with
    | .create won lost =>
      if s.lock then { s with worker := Function.update s.worker w lost }
      else { s with lock := true, worker := Function.update s.worker w won }
    | .act f => { s with shared := (f s.shared).2, worker := Function.update s.worker w (f s.shared).1 }
    | .remove after => { s with lock := false, worker := Function.update s.worker w after }
    | .halt => s
  | .interrupt w =>
    match P.code (s.worker w) with
    | .halt => s
    | _ => { s with lock := false, worker := Function.update s.worker w P.interrupted }

def Program.run (s : State ω σ ℓ) (events : List (Event ω)) : State ω σ ℓ := events.foldl P.step s

/-- No worker is interrupted while one is inside. -/
def Program.Quiet (s : State ω σ ℓ) : Event ω → Prop
  | .step _ => True
  | .interrupt _ => ∀ v, P.inside (s.worker v) = false

structure Program.Disciplined : Prop where
  create {l won lost : ℓ} : P.code l = .create won lost →
    P.inside l = false ∧ P.inside won = true ∧ P.inside lost = false
  act {l : ℓ} {f : σ → ℓ × σ} : P.code l = .act f → ∀ x, P.inside (f x).1 = P.inside l
  frame {l : ℓ} {f : σ → ℓ × σ} : P.code l = .act f → P.inside l = false → ∀ x, (f x).2 = x
  remove {l after : ℓ} : P.code l = .remove after → P.inside l = true ∧ P.inside after = false
  interrupted : P.inside P.interrupted = false

/-- `At l` is kept by the command at `l`, and by what a worker inside does meanwhile. -/
structure Program.Proved (Free : σ → Prop) (At : ℓ → σ → Prop) : Prop where
  won {l won lost : ℓ} {x : σ} : P.code l = .create won lost → Free x → At won x
  lost {l won lost : ℓ} {x : σ} : P.code l = .create won lost → At l x → At lost x
  act {l : ℓ} {f : σ → ℓ × σ} {x : σ} : P.code l = .act f → At l x → At (f x).1 (f x).2
  remove {l after : ℓ} {x : σ} : P.code l = .remove after → At l x → Free x ∧ At after x
  stable {l k : ℓ} {f : σ → ℓ × σ} {x : σ} : P.code l = .act f → P.inside l = true → P.inside k = false →
    At l x → At k x → At k (f x).2
  interrupted {x : σ} : At P.interrupted x

/-- At most one worker is inside, and then the lock file is there. -/
structure Program.Exclusive (s : State ω σ ℓ) : Prop where
  lock {w : ω} : P.inside (s.worker w) = true → s.lock = true
  one {v w : ω} : P.inside (s.worker v) = true → P.inside (s.worker w) = true → v = w

structure Program.Asserted (Free : σ → Prop) (At : ℓ → σ → Prop) (s : State ω σ ℓ) : Prop
    extends P.Exclusive s where
  held (w : ω) : At (s.worker w) s.shared
  free : (∀ w, P.inside (s.worker w) = false) → Free s.shared

section Rule
variable {P} {Free : σ → Prop} {At : ℓ → σ → Prop} {s : State ω σ ℓ}

omit [DecidableEq ω] in
theorem Program.Exclusive.outside_of_ne (h : P.Exclusive s) {v w : ω} (hw : P.inside (s.worker w) = true)
    (hne : v ≠ w) : P.inside (s.worker v) = false := by
  cases hv : P.inside (s.worker v) with
  | false => rfl
  | true => exact absurd (h.one hv hw) hne

/-- A worker moves from one location outside to another; the files stay as they are. -/
theorem Program.Asserted.outside (h : P.Asserted Free At s) {w : ω} {l : ℓ} (hw : P.inside (s.worker w) = false)
    (hl : P.inside l = false) (hat : At l s.shared) :
    P.Asserted Free At { s with worker := Function.update s.worker w l } := by
  have hin : ∀ v, P.inside (Function.update s.worker w l v) = true → P.inside (s.worker v) = true := by
    intro v hv
    rcases eq_or_ne v w with rfl | hne
    · rw [Function.update_self, hl] at hv
      cases hv
    · rwa [Function.update_of_ne hne] at hv
  refine ⟨⟨fun hv => h.lock (hin _ hv), fun hv hw' => h.one (hin _ hv) (hin _ hw')⟩, fun v => ?_, fun hall => ?_⟩
  · rcases eq_or_ne v w with rfl | hne
    · simpa using hat
    · simpa [Function.update_of_ne hne] using h.held v
  · refine h.free fun v => ?_
    rcases eq_or_ne v w with rfl | hne
    · exact hw
    · simpa [Function.update_of_ne hne] using hall v

theorem Program.Asserted.won (h : P.Asserted Free At s) {w : ω} {l : ℓ} (hlock : s.lock = false)
    (hl : P.inside l = true) (hat : Free s.shared → At l s.shared) :
    P.Asserted Free At { s with lock := true, worker := Function.update s.worker w l } := by
  have hout : ∀ v, P.inside (s.worker v) = false := by
    intro v
    cases hv : P.inside (s.worker v) with
    | false => rfl
    | true => exact absurd ((h.lock hv).symm.trans hlock) (by simp)
  have hone : ∀ v, P.inside (Function.update s.worker w l v) = true → v = w := by
    intro v hv
    by_contra hne
    rw [Function.update_of_ne hne, hout v] at hv
    cases hv
  refine ⟨⟨fun _ => rfl, fun hv hw => (hone _ hv).trans (hone _ hw).symm⟩, fun v => ?_, fun hall => ?_⟩
  · rcases eq_or_ne v w with rfl | hne
    · simpa using hat (h.free hout)
    · simpa [Function.update_of_ne hne] using h.held v
  · have hin : P.inside (Function.update s.worker w l w) = false := hall w
    rw [Function.update_self, hl] at hin
    cases hin

/-- The worker inside acts on the files. -/
theorem Program.Asserted.acted (hd : P.Disciplined) (hp : P.Proved Free At) (h : P.Asserted Free At s) {w : ω}
    {f : σ → ℓ × σ} (hcode : P.code (s.worker w) = .act f) (hw : P.inside (s.worker w) = true) :
    P.Asserted Free At
      { s with shared := (f s.shared).2, worker := Function.update s.worker w (f s.shared).1 } := by
  have hin : ∀ v, P.inside (Function.update s.worker w (f s.shared).1 v) = P.inside (s.worker v) := by
    intro v
    rcases eq_or_ne v w with rfl | hne
    · rw [Function.update_self, hd.act hcode]
    · rw [Function.update_of_ne hne]
  refine ⟨⟨fun hv => ?_, fun hv hv' => ?_⟩, fun v => ?_, fun hall => ?_⟩
  · exact h.lock ((hin _).symm.trans hv)
  · exact h.one ((hin _).symm.trans hv) ((hin _).symm.trans hv')
  · rcases eq_or_ne v w with rfl | hne
    · simpa using hp.act hcode (h.held v)
    · have hv := h.outside_of_ne hw hne
      simpa [Function.update_of_ne hne] using hp.stable hcode hw hv (h.held w) (h.held v)
  · have := (hin w).symm.trans (hall w)
    rw [hw] at this
    cases this

theorem Program.Asserted.removed (hp : P.Proved Free At) (h : P.Asserted Free At s) {w : ω} {l : ℓ}
    (hcode : P.code (s.worker w) = .remove l) (hw : P.inside (s.worker w) = true) (hl : P.inside l = false) :
    P.Asserted Free At { s with lock := false, worker := Function.update s.worker w l } := by
  have hout : ∀ v, P.inside (Function.update s.worker w l v) = false := by
    intro v
    rcases eq_or_ne v w with rfl | hne
    · rwa [Function.update_self]
    · rw [Function.update_of_ne hne]
      exact h.outside_of_ne hw hne
  refine ⟨⟨fun {v} hv => ?_, fun {v _} hv _ => ?_⟩, fun v => ?_, fun _ => (hp.remove hcode (h.held w)).1⟩
  · exact absurd ((hout v).symm.trans hv) (by simp)
  · exact absurd ((hout v).symm.trans hv) (by simp)
  · rcases eq_or_ne v w with rfl | hne
    · simpa using (hp.remove hcode (h.held v)).2
    · simpa [Function.update_of_ne hne] using h.held v

/-- The handler runs while nobody is inside. -/
theorem Program.Asserted.killed (hd : P.Disciplined) (hp : P.Proved Free At) (h : P.Asserted Free At s) {w : ω}
    (hq : ∀ v, P.inside (s.worker v) = false) :
    P.Asserted Free At { s with lock := false, worker := Function.update s.worker w P.interrupted } := by
  have ho := h.outside (hq w) hd.interrupted hp.interrupted
  have hout : ∀ v, P.inside (Function.update s.worker w P.interrupted v) = false := by
    intro v
    rcases eq_or_ne v w with rfl | hne
    · rw [Function.update_self, hd.interrupted]
    · rw [Function.update_of_ne hne, hq v]
  refine ⟨⟨fun {v} hv => ?_, ho.one⟩, ho.held, ho.free⟩
  exact absurd ((hout v).symm.trans hv) (by simp)

theorem Program.Asserted.step (hd : P.Disciplined) (hp : P.Proved Free At) (h : P.Asserted Free At s)
    {e : Event ω} (hq : P.Quiet s e) : P.Asserted Free At (P.step s e) := by
  cases e with
  | step w =>
    cases hcode : P.code (s.worker w) with
    | create won lost =>
      obtain ⟨hout, hwon, hlost⟩ := hd.create hcode
      simp only [Program.step, hcode]
      split
      · exact h.outside hout hlost (hp.lost hcode (h.held w))
      · rename_i hlock
        exact h.won (by simpa using hlock) hwon (hp.won hcode)
    | act f =>
      simp only [Program.step, hcode]
      cases hw : P.inside (s.worker w) with
      | true => exact h.acted hd hp hcode hw
      | false =>
        have hsame := hd.frame hcode hw s.shared
        have hat := hp.act hcode (h.held w)
        rw [hsame] at hat
        have ho := h.outside hw ((hd.act hcode s.shared).trans hw) hat
        simpa [hsame] using ho
    | remove after =>
      obtain ⟨hin, hout⟩ := hd.remove hcode
      simp only [Program.step, hcode]
      exact h.removed hp hcode hin hout
    | halt =>
      simp only [Program.step, hcode]
      exact h
  | interrupt w =>
    simp only [Program.step]
    split
    · exact h
    · exact h.killed hd hp hq

/-- Over every quiet interleaving, from a start at which all workers are outside. -/
theorem Program.Asserted.run (hd : P.Disciplined) (hp : P.Proved Free At) (h : P.Asserted Free At s)
    {events : List (Event ω)} (hq : Run.Allows P.step P.Quiet s events) : P.Asserted Free At (P.run s events) :=
  Run.Allows.foldl (I := P.Asserted Free At) hq h fun _ _ hs he => hs.step hd hp he

end Rule

/-! ### Steps of single workers -/

theorem Program.allows_steps (s : State ω σ ℓ) (ws : List ω) :
    Run.Allows P.step P.Quiet s (ws.map Event.step) := by
  induction ws generalizing s with
  | nil => trivial
  | cons w ws ih => exact ⟨trivial, ih _⟩

/-- Some steps of workers, none of them interrupted, lead from one state to the other. -/
def Program.Leads (s s' : State ω σ ℓ) : Prop := ∃ ws : List ω, P.run s (ws.map Event.step) = s'

section Leads
variable {P} {s s' s'' : State ω σ ℓ} {b : Bool} {x : σ} {worker : ω → ℓ} {w : ω} {l l' : ℓ}

theorem Program.Leads.refl (s : State ω σ ℓ) : P.Leads s s := ⟨[], rfl⟩

theorem Program.Leads.trans (h : P.Leads s s') (h' : P.Leads s' s'') : P.Leads s s'' := by
  obtain ⟨ws, rfl⟩ := h
  obtain ⟨ws', rfl⟩ := h'
  exact ⟨ws ++ ws', by simp [Program.run]⟩

theorem Program.Leads.of_create {lost : ℓ} (hcode : P.code l = .create l' lost)
    (h : P.Leads ⟨true, x, Function.update worker w l'⟩ s) :
    P.Leads ⟨false, x, Function.update worker w l⟩ s := by
  refine Program.Leads.trans ⟨[w], ?_⟩ h
  simp [Program.run, Program.step, hcode]

theorem Program.Leads.of_act {f : σ → ℓ × σ} (hcode : P.code l = .act f)
    (h : P.Leads ⟨b, (f x).2, Function.update worker w (f x).1⟩ s) :
    P.Leads ⟨b, x, Function.update worker w l⟩ s := by
  refine Program.Leads.trans ⟨[w], ?_⟩ h
  simp [Program.run, Program.step, hcode]

theorem Program.Leads.of_remove (hcode : P.code l = .remove l')
    (h : P.Leads ⟨false, x, Function.update worker w l'⟩ s) :
    P.Leads ⟨b, x, Function.update worker w l⟩ s := by
  refine Program.Leads.trans ⟨[w], ?_⟩ h
  simp [Program.run, Program.step, hcode]

end Leads

end LockFile
