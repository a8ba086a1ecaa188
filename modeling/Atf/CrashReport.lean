import Atf.TestBase
import Atf.Lib.Run

/-!
# A crash of SDL in the report of the step

A call of `checkStatus` that sees a crash notes it in a local variable only, and deletes the pid file, so
no later call sees the same crash. The note reaches the report when the same call writes it, which is when
the step is `Ready`: the expectations have their statuses, none of them is still to be delayed, and an
earlier call has set `isStepCompleted`. Every other call returns early and forgets the crash
(`crash_forgotten`).

The invariant (`CrashFails`) is that a step whose crash was seen is not current any more.
-/

namespace Atf
open Lua

/-! ### The loop over the expectations -/

namespace ExpectationsList
variable {l : ExpectationsList}

theorem visit_drop {v : List StepExpectation} (hl : ∀ i, l.expnext i = v[i]?.map fun e => (i + 1, e))
    {fuel i : Nat} (hf : v.length < fuel + i) (hi : i ≤ v.length) : l.visit fuel i = some (v.drop i) := by
  induction fuel generalizing i with
  | zero => omega
  | succ fuel ih =>
    simp only [visit, hl]
    rcases Nat.lt_or_eq_of_le hi with hlt | rfl
    · rw [List.getElem?_eq_getElem hlt, Option.map_some]
      simp only [ih (i := i + 1) (by omega) hlt, Option.map_some]
      rw [List.drop_eq_getElem_cons hlt]
    · simp

/-- A loop over one kind of expectations visits each of them once. -/
theorem visit_eq (h : l.expectations = [] ∨ l.pinned = []) :
    l.visit (l.expectations.length + l.pinned.length + 1) 0 = some (l.expectations ++ l.pinned) := by
  rcases h with h | h
  · refine (visit_drop (v := l.expectations ++ l.pinned) (fun i => ?_) ?_ (Nat.zero_le _)).trans ?_
    · rw [h, List.nil_append, expnext, h]
      cases l.pinned[i]? <;> simp
    · simp
    · rw [List.drop_zero]
  · refine (visit_drop (v := l.expectations ++ l.pinned) (fun i => ?_) ?_ (Nat.zero_le _)).trans ?_
    · rw [h, List.append_nil, expnext, h]
      cases l.expectations[i]? <;> simp
    · simp
    · rw [List.drop_zero]

/-- With expectations of both kinds the index starts again, and the loop never ends. -/
theorem visit_eq_none (he : l.expectations ≠ []) (hp : l.pinned ≠ []) (fuel : Nat) : l.visit fuel 0 = none := by
  have hne : 0 < l.expectations.length := List.length_pos_iff.mpr he
  have hnp : 0 < l.pinned.length := List.length_pos_iff.mpr hp
  suffices h : ∀ i, i < l.expectations.length + l.pinned.length → l.visit fuel i = none from h 0 (by omega)
  induction fuel with
  | zero => exact fun _ _ => rfl
  | succ fuel ih =>
    intro i hi
    simp only [visit, expnext]
    rcases Nat.lt_or_ge i l.expectations.length with hlt | hge
    · rw [List.getElem?_eq_getElem hlt]
      simp only [ih (i + 1) (by omega), Option.map_none]
    · have hlt : i - l.expectations.length < l.pinned.length := by omega
      rw [List.getElem?_eq_none hge, List.getElem?_eq_getElem hlt]
      simp only [ih (i - l.expectations.length + 1) (by omega), Option.map_none]

end ExpectationsList

namespace TestBase
variable {zeroOccurrenceTimeout now : Int} {s s' : TestBase} {rep : Option Report}

/-! ### What one call of `checkStatus` does -/

/-- This call of `checkStatus` writes the report. -/
def Ready (s : TestBase) : Prop :=
  s.isStepCompleted = true ∧
    ∀ e ∈ s.expectationsList.expectations, e.status ≠ none ∧ e.isDelayNeedsToBeApplied = false

/-- A step is current, and a call of `checkStatus` sees that SDL has crashed, with `exitOnCrash`. -/
def ObservesCrash (s : TestBase) : Prop :=
  s.currentCaseName.getD "" ≠ "" ∧ s.sdl.checkStatusSDL = .ok .CRASH ∧ s.sdl.exitOnCrash = true

instance : Decidable s.Ready := inferInstanceAs (Decidable (_ ∧ _))

instance : Decidable s.ObservesCrash := inferInstanceAs (Decidable (_ ∧ _))

theorem judge_failed {connections : List Nat} {j j' : Judgement} {e : StepExpectation}
    (h : judge connections j e = .ok j') (hj : j.success = false) : j'.success = false := by
  obtain ⟨pool, -, h⟩ := bind_eq_ok.mp h
  cases h
  simp [hj]

theorem judgeAll_failed {j : Judgement} (h : s.judgeAll false = .ok j) : j.success = false := by
  unfold judgeAll at h
  split at h
  · cases h
  · exact foldlM_invariant (I := fun j => j.success = false) h rfl fun _ _ _ hj he => judge_failed he hj

/-- SDL is stopped after a mandatory step that failed, and nothing is done after any other step. -/
theorem stopIfMandatory_cases {success : Bool} (h : s.stopIfMandatory success = .ok s') :
    (s.currentCaseMandatory && !success) = false ∧ s' = s ∨
    ∃ sdl, s.sdl.stopSDL = .ok sdl ∧
      s' = if sdl.exitOnCrash then quit { s with sdl } (some ExitCodes.aborted) else { s with sdl } := by
  unfold stopIfMandatory at h
  split at h
  · obtain ⟨s₁, hs₁, h⟩ := bind_eq_ok.mp h
    obtain ⟨sdl, hsdl, hs₁⟩ := bind_eq_ok.mp hs₁
    cases hs₁
    cases h
    exact .inr ⟨sdl, hsdl, rfl⟩
  · rename_i hno
    cases h
    exact .inl ⟨Bool.eq_false_of_not_eq_true hno, rfl⟩

theorem stopIfMandatory_currentCaseName {success : Bool} (h : s.stopIfMandatory success = .ok s') :
    s'.currentCaseName = s.currentCaseName := by
  rcases stopIfMandatory_cases h with ⟨-, rfl⟩ | ⟨sdl, -, rfl⟩
  · rfl
  · split <;> rfl

theorem reportStep_spec {name : String} {success : Bool} (h : s.reportStep name success = .ok (s', rep)) :
    ∃ r, rep = some r ∧ s'.currentCaseName = none ∧ (success = false → r.success = false) := by
  obtain ⟨j, hj, h⟩ := bind_eq_ok.mp h
  obtain ⟨s₁, hs₁, h⟩ := bind_eq_ok.mp h
  cases h
  refine ⟨_, rfl, stopIfMandatory_currentCaseName hs₁, ?_⟩
  rintro rfl
  exact judgeAll_failed hj

/-- Waiting adds expectations without a status, and changes nothing that decides the report. -/
structure Waiting (s s' : TestBase) (n : Nat) : Prop where
  currentCaseName : s'.currentCaseName = s.currentCaseName
  isStepCompleted : s'.isStepCompleted = s.isStepCompleted
  sdl : s'.sdl = s.sdl
  expectations : ∃ added : List StepExpectation, added.length = n ∧ (∀ e ∈ added, e.status = none) ∧
    s'.expectationsList.expectations = s.expectationsList.expectations ++ added

theorem Waiting.refl (s : TestBase) : s.Waiting s 0 := ⟨rfl, rfl, rfl, [], rfl, by simp, by simp⟩

theorem Waiting.trans {s'' : TestBase} {n n' : Nat} (h : s.Waiting s' n) (h' : s'.Waiting s'' n') :
    s.Waiting s'' (n + n') := by
  obtain ⟨added, hlen, hadded, heq⟩ := h.expectations
  obtain ⟨added', hlen', hadded', heq'⟩ := h'.expectations
  refine ⟨h'.currentCaseName.trans h.currentCaseName, h'.isStepCompleted.trans h.isStepCompleted,
    h'.sdl.trans h.sdl, added ++ added', ?_, ?_, ?_⟩
  · rw [List.length_append, hlen, hlen']
  · intro e he
    rcases List.mem_append.mp he with he | he
    · exact hadded e he
    · exact hadded' e he
  · rw [heq', heq, List.append_assoc]

theorem addEvent_eq_ok {connection : Option Nat} {event : Nat} (h : s.addEvent connection event = .ok s') :
    ∃ pool, s' = { s with pool } := by
  unfold addEvent at h
  split at h
  · split at h
    · cases h; exact ⟨_, rfl⟩
    · cases h
  · cases h

theorem wait_waiting {connection : Option Nat} (h : s.wait zeroOccurrenceTimeout now connection = .ok s') :
    s.Waiting s' 1 := by
  obtain ⟨s₁, hs₁, h⟩ := bind_eq_ok.mp h
  obtain ⟨pool, rfl⟩ := addEvent_eq_ok hs₁
  cases h
  exact ⟨rfl, rfl, rfl, [_], rfl, by simp [StepExpectation.new, Expectation.new], rfl⟩

theorem foldlM_wait_waiting {connections : List (Option Nat)}
    (h : connections.foldlM (fun s connection => wait zeroOccurrenceTimeout now connection s) s = .ok s') :
    s.Waiting s' connections.length := by
  induction connections generalizing s with
  | nil => cases h; exact .refl _
  | cons connection connections ih =>
    rw [List.foldlM_cons] at h
    obtain ⟨s₁, hs₁, h⟩ := bind_eq_ok.mp h
    rw [List.length_cons, Nat.add_comm]
    exact (wait_waiting hs₁).trans (ih h)

/-- After the delays, an expectation has no status exactly if one had none or was to be delayed. -/
theorem applyDelays_spec (h : s.applyDelays zeroOccurrenceTimeout now = .ok s') :
    s'.currentCaseName = s.currentCaseName ∧ s'.isStepCompleted = s.isStepCompleted ∧ s'.sdl = s.sdl ∧
      (s'.expectationsList.expectations.any (·.status == none) = false ↔
        ∀ e ∈ s.expectationsList.expectations, e.status ≠ none ∧ e.isDelayNeedsToBeApplied = false) := by
  have hw := foldlM_wait_waiting h
  obtain ⟨added, hlen, hadded, heq⟩ := hw.expectations
  refine ⟨hw.currentCaseName, hw.isStepCompleted, hw.sdl, ?_⟩
  have hnil : added = [] ↔ ∀ e ∈ s.expectationsList.expectations, e.isDelayNeedsToBeApplied = false := by
    rw [← List.length_eq_zero_iff, hlen, takeDelays, List.length_map, List.length_eq_zero_iff,
      List.filter_eq_nil_iff]
    simp
  rw [heq, List.any_append, Bool.or_eq_false_iff]
  constructor
  · rintro ⟨hold, hnew⟩ e he
    have hempty : added = [] := by
      rcases added with _ | ⟨e', added⟩
      · rfl
      · simp [hadded e' (by simp)] at hnew
    refine ⟨?_, hnil.mp hempty e he⟩
    simp only [takeDelays, List.any_map, List.any_eq_false] at hold
    simpa using hold e he
  · intro hall
    rw [hnil.mpr fun e he => (hall e he).2]
    refine ⟨?_, rfl⟩
    simp only [takeDelays, List.any_map, List.any_eq_false]
    intro e he
    simpa using (hall e he).1

theorem checkExpectations_spec {name : String} {success : Bool}
    (h : s.checkExpectations zeroOccurrenceTimeout now name success = .ok (s', rep)) :
    (¬ s.Ready ∧ rep = none ∧ s'.currentCaseName = s.currentCaseName ∧ s'.sdl = s.sdl) ∨
      (s.Ready ∧ ∃ r, rep = some r ∧ s'.currentCaseName = none ∧ (success = false → r.success = false)) := by
  obtain ⟨s₁, hs₁, h⟩ := bind_eq_ok.mp h
  obtain ⟨hname, hcompleted, hsdl, hpending⟩ := applyDelays_spec hs₁
  split at h
  · rename_i hany
    cases h
    refine .inl ⟨fun hr => ?_, rfl, hname, hsdl⟩
    rw [hpending.mpr hr.2] at hany
    cases hany
  · rename_i hany
    split at h
    · rename_i hfirst
      cases h
      refine .inl ⟨fun hr => ?_, rfl, hname, hsdl⟩
      rw [hcompleted, hr.1] at hfirst
      cases hfirst
    · rename_i hcheck
      refine .inr ⟨⟨?_, hpending.mp (by simpa using hany)⟩, reportStep_spec h⟩
      rw [← hcompleted]
      simpa using hcheck

/-- A call that is made while no step is current does nothing; one that finds the step `Ready` writes the
report, with the crash it sees; every other call leaves the step current, with no pid file to show the
crash again. -/
theorem checkStatus_spec (h : s.checkStatus zeroOccurrenceTimeout now = .ok (s', rep)) :
    (s.currentCaseName.getD "" = "" ∧ s' = s ∧ rep = none) ∨
      s.currentCaseName.getD "" ≠ "" ∧
        ((¬ s.Ready ∧ rep = none ∧ s'.currentCaseName = s.currentCaseName ∧
            (s.ObservesCrash → s'.sdl = s.sdl.deleteFile)) ∨
          (s.Ready ∧ ∃ r, rep = some r ∧ s'.currentCaseName = none ∧ (s.ObservesCrash → r.success = false))) := by
  unfold checkStatus at h
  split at h
  · rename_i hname
    cases h
    exact .inl ⟨by rw [hname]; rfl, rfl, rfl⟩
  · rename_i name hname
    split at h
    · rename_i hempty
      cases h
      exact .inl ⟨by rw [hname, hempty]; rfl, rfl, rfl⟩
    · rename_i hne
      refine .inr ⟨by rw [hname]; exact hne, ?_⟩
      obtain ⟨status, hstatus, h⟩ := bind_eq_ok.mp h
      split at h
      · rcases checkExpectations_spec h with ⟨hr, hrep, hkeep, hsdl⟩ | ⟨hr, r, hrep, hnone, hfail⟩
        · exact .inl ⟨hr, hrep, hkeep, fun _ => hsdl⟩
        · refine .inr ⟨hr, r, hrep, hnone, fun hobs => hfail ?_⟩
          rw [hobs.2.2, Bool.not_true]
      · rename_i hcrash
        have hunseen : ¬ s.ObservesCrash := fun hobs => hcrash (Except.ok.inj (hstatus.symm.trans hobs.2.1))
        rcases checkExpectations_spec h with ⟨hr, hrep, hkeep, -⟩ | ⟨hr, r, hrep, hnone, -⟩
        · exact .inl ⟨hr, hrep, hkeep, fun hobs => absurd hobs hunseen⟩
        · exact .inr ⟨hr, r, hrep, hnone, fun hobs => absurd hobs hunseen⟩

end TestBase

/-! ### Runs -/

inductive EngineEvent
  | checkStatus (now : Int)
  | failTestCase (now : Int) (cause : String)
  | runNextCase
  | change (w : Surroundings)

/-- The engine, whether a crash was seen while the current step was current, and the reports so far, each
with whether a crash was seen during its step. -/
structure EngineHistory where
  test : TestBase
  crashSeen : Bool
  reports : List (Report × Bool)

namespace EngineHistory

def start (caseNames : List String) (w : Surroundings) : EngineHistory := ⟨.start caseNames w, false, []⟩

def checked (h : EngineHistory) (p : TestBase × Option Report) : EngineHistory :=
  let seen := h.crashSeen || decide h.test.ObservesCrash
  ⟨p.1, seen, h.reports ++ (p.2.map (·, seen)).toList⟩

def step (zeroOccurrenceTimeout : Int) (h : EngineHistory) : EngineEvent → LuaM EngineHistory
  | .checkStatus now => (h.test.checkStatus zeroOccurrenceTimeout now).map h.checked
  | .failTestCase now cause => (h.test.failTestCase zeroOccurrenceTimeout now cause).map h.checked
  | .runNextCase =>
    h.test.runNextCase.map fun test => { h with test, crashSeen := h.crashSeen && h.test.pendingNext == 0 }
  | .change w => .ok { h with test := { h.test with toSurroundings := w } }

/-- A call that sees a crash finds the step ready to be reported. -/
def CrashWhenReady (h : EngineHistory) : EngineEvent → Prop
  | .checkStatus _ => h.test.ObservesCrash → h.test.Ready
  | .failTestCase _ _ => h.test.ObservesCrash → h.test.Ready
  | .runNextCase => True
  | .change _ => True

instance (h : EngineHistory) : ∀ e, Decidable (h.CrashWhenReady e)
  | .checkStatus _ | .failTestCase _ _ => inferInstanceAs (Decidable (h.test.ObservesCrash → h.test.Ready))
  | .runNextCase | .change _ => inferInstanceAs (Decidable True)

structure CrashFails (h : EngineHistory) : Prop where
  ended : h.crashSeen = true → h.test.currentCaseName = none
  failed : ∀ r ∈ h.reports, r.2 = true → r.1.success = false

variable {h h' : EngineHistory}

theorem CrashFails.start (caseNames : List String) (w : Surroundings) : (start caseNames w).CrashFails :=
  ⟨fun _ => rfl, by simp [EngineHistory.start]⟩

/-- The call may be made on a list with more expectations (`s`), as `failTestCase` does. -/
theorem CrashFails.checked {s s' : TestBase} {rep : Option Report} {zeroOccurrenceTimeout now : Int}
    (hinv : h.CrashFails) (hname : s.currentCaseName = h.test.currentCaseName)
    (hobs : s.ObservesCrash ↔ h.test.ObservesCrash) (hready : h.test.ObservesCrash → s.Ready)
    (hs : s.checkStatus zeroOccurrenceTimeout now = .ok (s', rep)) : (h.checked (s', rep)).CrashFails := by
  rcases TestBase.checkStatus_spec hs with ⟨hidle, rfl, rfl⟩ | ⟨hcurrent, hcall⟩
  · have hunseen : ¬ h.test.ObservesCrash := fun ho => ho.1 (hname ▸ hidle)
    refine ⟨fun hseen => ?_, by simpa [EngineHistory.checked] using hinv.failed⟩
    rw [EngineHistory.checked, hname]
    exact hinv.ended (by simpa [EngineHistory.checked, hunseen] using hseen)
  · -- a crash of this step cannot have been seen before, since the step is still current
    have hseen : h.crashSeen = false := by
      rw [← Bool.not_eq_true]
      intro hseen
      rw [hname, hinv.ended hseen] at hcurrent
      exact hcurrent rfl
    rcases hcall with ⟨hr, rfl, hkeep, -⟩ | ⟨-, r, rfl, hnone, hfail⟩
    · have hunseen : ¬ h.test.ObservesCrash := fun ho => hr (hready ho)
      refine ⟨fun hs => ?_, by simpa [EngineHistory.checked] using hinv.failed⟩
      simp [EngineHistory.checked, hseen, hunseen] at hs
    · refine ⟨fun _ => hnone, ?_⟩
      intro r' hr'
      simp only [EngineHistory.checked, hseen, Bool.false_or, Option.map_some, Option.toList_some,
        List.mem_append, List.mem_singleton] at hr'
      rcases hr' with hr' | rfl
      · exact hinv.failed r' hr'
      · intro ho
        exact hfail (hobs.mpr (by simpa using ho))

theorem CrashFails.step {zeroOccurrenceTimeout : Int} {e : EngineEvent} (hinv : h.CrashFails)
    (hready : h.CrashWhenReady e) (hs : h.step zeroOccurrenceTimeout e = .ok h') : h'.CrashFails := by
  cases e with
  | checkStatus now =>
    obtain ⟨⟨s', rep⟩, hcheck, rfl⟩ := map_eq_ok.mp hs
    exact hinv.checked rfl Iff.rfl hready hcheck
  | failTestCase now cause =>
    obtain ⟨⟨s', rep⟩, hcheck, rfl⟩ := map_eq_ok.mp hs
    unfold TestBase.failTestCase at hcheck
    refine hinv.checked ?_ ?_ ?_ hcheck
    · rfl
    · exact Iff.rfl
    · -- the added expectation has failed already
      intro ho
      refine ⟨(hready ho).1, fun e he => ?_⟩
      rcases List.mem_append.mp he with he | he
      · exact (hready ho).2 e he
      · rw [List.mem_singleton.mp he]
        exact ⟨nofun, rfl⟩
  | runNextCase =>
    obtain ⟨test, hnext, rfl⟩ := map_eq_ok.mp hs
    refine ⟨fun hseen => ?_, hinv.failed⟩
    simp only [Bool.and_eq_true, beq_iff_eq] at hseen
    rw [TestBase.runNextCase, if_pos hseen.2] at hnext
    cases hnext
    exact hinv.ended hseen.1
  | change w =>
    cases hs
    exact ⟨hinv.ended, hinv.failed⟩

/-- In every run in which a crash is seen only by calls that find the step ready, the report of a step
with a crash says that it failed. -/
theorem crash_fails_step (zeroOccurrenceTimeout : Int) (caseNames : List String) (w : Surroundings)
    (hr : Run.Reaches (step zeroOccurrenceTimeout) CrashWhenReady (start caseNames w) h) :
    ∀ r ∈ h.reports, r.2 = true → r.1.success = false :=
  (hr.invariant (CrashFails.start caseNames w) fun _ _ _ hinv hg hs => hinv.step hg hs).failed

/-! ### The crash that is forgotten -/

theorem checkStatusSDL_deleteFile {sdl : Sdl} (hc : sdl.checkStatusSDL = .ok .CRASH) :
    sdl.deleteFile.checkStatusSDL = .ok .STOPPED := by
  unfold Sdl.checkStatusSDL at hc
  split at hc
  · split_ifs at hc <;> cases hc
  · rename_i hlocal
    simp [Sdl.checkStatusSDL, Sdl.deleteFile, hlocal]

/-- A step without expectations, with SDL stopped: the next call marks it as completed or reports it. -/
theorem checkStatus_quiet {t : TestBase} {name : String} (zeroOccurrenceTimeout now : Int)
    (hname : t.currentCaseName = some name) (hne : name ≠ "") (hsdl : t.sdl.checkStatusSDL = .ok .STOPPED)
    (hempty : t.expectationsList = ⟨[], []⟩) :
    t.checkStatus zeroOccurrenceTimeout now =
      if t.isStepCompleted then
        .ok ({ t with currentCaseName := none, pendingNext := t.pendingNext + 1 }, some ⟨name, true, [], []⟩)
      else .ok ({ t with isStepCompleted := true }, none) := by
  cases hcompleted : t.isStepCompleted <;>
    simp [TestBase.checkStatus, TestBase.checkExpectations, TestBase.applyDelays, TestBase.takeDelays,
      TestBase.reportStep, TestBase.judgeAll, TestBase.stopIfMandatory, ExpectationsList.visit,
      ExpectationsList.expnext, ExpectationsList.clear, hname, hne, hsdl, hempty, hcompleted, bind,
      Except.bind, pure, Except.pure] <;>
    rw [← hempty]

theorem quiet_reported {name : String} (zeroOccurrenceTimeout now : Int) (hseen : h.crashSeen = true)
    (hname : h.test.currentCaseName = some name) (hne : name ≠ "")
    (hsdl : h.test.sdl.checkStatusSDL = .ok .STOPPED) (hempty : h.test.expectationsList = ⟨[], []⟩) :
    ∃ h', Run.Reaches (step zeroOccurrenceTimeout) (fun _ _ => True) h h' ∧
      (⟨name, true, [], []⟩, true) ∈ h'.reports := by
  have report : ∀ h₁ : EngineHistory, h₁.test = { h.test with isStepCompleted := true } →
      h₁.crashSeen = true → ∃ h', h₁.step zeroOccurrenceTimeout (.checkStatus now) = .ok h' ∧
        (⟨name, true, [], []⟩, true) ∈ h'.reports := by
    intro h₁ htest hseen₁
    have hcall := checkStatus_quiet (t := h₁.test) zeroOccurrenceTimeout now (by rw [htest]; exact hname) hne
      (by rw [htest]; exact hsdl) (by rw [htest]; exact hempty)
    rw [if_pos (by rw [htest])] at hcall
    exact ⟨_, map_eq_ok.mpr ⟨_, hcall, rfl⟩, by simp [EngineHistory.checked, hseen₁]⟩
  have hcall := checkStatus_quiet zeroOccurrenceTimeout now hname hne hsdl hempty
  rcases hcompleted : h.test.isStepCompleted with _ | _
  · -- one more call marks the step as completed
    rw [if_neg (by rw [hcompleted]; exact Bool.false_ne_true)] at hcall
    have hmark : h.step zeroOccurrenceTimeout (.checkStatus now) =
        .ok (h.checked ({ h.test with isStepCompleted := true }, none)) := map_eq_ok.mpr ⟨_, hcall, rfl⟩
    obtain ⟨h', hstep, hmem⟩ := report (h.checked ({ h.test with isStepCompleted := true }, none)) rfl
      (by simp [EngineHistory.checked, hseen])
    exact ⟨h', (Run.Reaches.start.step trivial hmark).step trivial hstep, hmem⟩
  · obtain ⟨h', hstep, hmem⟩ := report h (by rw [← hcompleted]) hseen
    exact ⟨h', Run.Reaches.start.step trivial hstep, hmem⟩

/-- The condition on the call is exact: after any other call that sees a crash, the expectations can be
withdrawn and the step is reported as a success. -/
theorem crash_forgotten {zeroOccurrenceTimeout now : Int} (hobs : h.test.ObservesCrash)
    (hready : ¬ h.test.Ready) (hs : h.step zeroOccurrenceTimeout (.checkStatus now) = .ok h') :
    ∃ w h₁ h₂, h'.step zeroOccurrenceTimeout (.change w) = .ok h₁ ∧
      Run.Reaches (step zeroOccurrenceTimeout) (fun _ _ => True) h₁ h₂ ∧
      ∃ r, (r, true) ∈ h₂.reports ∧ r.success = true := by
  obtain ⟨⟨s', rep⟩, hcheck, rfl⟩ := map_eq_ok.mp hs
  rcases TestBase.checkStatus_spec hcheck with ⟨hidle, -⟩ | ⟨-, ⟨-, rfl, hkeep, hsdl⟩ | ⟨hr, -⟩⟩
  · exact absurd hidle hobs.1
  · obtain ⟨name, hname, hne⟩ : ∃ name, h.test.currentCaseName = some name ∧ name ≠ "" := by
      rcases hname : h.test.currentCaseName with _ | name
      · exact absurd (by rw [hname]; rfl) hobs.1
      · exact ⟨name, rfl, fun hempty => hobs.1 (by rw [hname, hempty]; rfl)⟩
    have hstopped : s'.sdl.checkStatusSDL = .ok .STOPPED := by
      rw [hsdl hobs]
      exact checkStatusSDL_deleteFile hobs.2.1
    let w : Surroundings := { s'.toSurroundings with expectationsList := ⟨[], []⟩ }
    obtain ⟨h₂, hreach, hmem⟩ := quiet_reported
      (h := { h.checked (s', none) with test := { s' with toSurroundings := w } }) zeroOccurrenceTimeout now
      (by simp [EngineHistory.checked, hobs]) (hkeep.trans hname) hne hstopped rfl
    exact ⟨w, _, h₂, rfl, hreach, _, hmem, rfl⟩
  · exact absurd hr hready

/-! ### Examples of runs -/

namespace Sample

def sdl (running : Bool) : Sdl :=
  { exitOnCrash := true, autoStarted := true, pidFile := some "100", proc := fun pid => running && pid == "100"
    remoteEnabled := false, appStatus := (false, "") }

def surroundings (expectations : List StepExpectation) (sdl : Sdl) : Surroundings :=
  { expectationsList := ⟨expectations, []⟩, connections := [1], pool := [(1, 1)], timers := [], fresh := 2
    currentCaseMandatory := false, sdl }

def expectation (status : Option Status) : StepExpectation :=
  { StepExpectation.new "response" (some 1) 0 with event := some 1, status }

/-- SDL crashes after the expectation is settled and the step is marked as completed. -/
def lateCrash : List EngineEvent :=
  [.runNextCase, .change (surroundings [expectation none] (sdl true)), .checkStatus 400,
    .change (surroundings [expectation (some .SUCCESS)] (sdl true)), .checkStatus 800,
    .change (surroundings [expectation (some .SUCCESS)] (sdl false)), .checkStatus 1200]

/-- SDL crashes while the response is expected; the response that was on its way still arrives. -/
def earlyCrash : List EngineEvent :=
  [.runNextCase, .change (surroundings [expectation none] (sdl false)), .checkStatus 400,
    .change { surroundings [expectation (some .SUCCESS)] (sdl false).deleteFile with
      currentCaseMandatory := true },
    .checkStatus 800, .checkStatus 1200]

end Sample

theorem crash_fails_step_sample :
    ∃ h, Run.Reaches (step 2000) CrashWhenReady (start ["Activation"] (Sample.surroundings [] (Sample.sdl true))) h ∧
      h.reports.map (fun r => (r.1.name, r.2)) = [("Activation", true)] ∧
      ∀ r ∈ h.reports, r.2 = true → r.1.success = false := by
  have hrun : (Run.exec (step 2000) CrashWhenReady (start ["Activation"]
      (Sample.surroundings [] (Sample.sdl true))) Sample.lateCrash).map
      (fun h => h.reports.map fun r => (r.1.name, r.2)) = some [("Activation", true)] := by
    decide +kernel
  obtain ⟨h, hh, hreports⟩ := Option.map_eq_some_iff.mp hrun
  have hr := Run.Reaches.of_exec .start hh
  exact ⟨h, hr, hreports, crash_fails_step 2000 _ _ hr⟩

theorem early_crash_reported_as_success :
    ¬ ∀ (zeroOccurrenceTimeout : Int) (caseNames : List String) (w : Surroundings) (h : EngineHistory),
      Run.Reaches (step zeroOccurrenceTimeout) (fun _ _ => True) (start caseNames w) h →
        ∀ r ∈ h.reports, r.2 = true → r.1.success = false := by
  intro hall
  have hrun : (Run.exec (step 2000) (fun _ _ => True) (start ["Activation"]
      (Sample.surroundings [] (Sample.sdl true))) Sample.earlyCrash).map EngineHistory.reports =
      some [(⟨"Activation", true, [], []⟩, true)] := by
    decide +kernel
  obtain ⟨h, hh, hreports⟩ := Option.map_eq_some_iff.mp hrun
  have hmem : ((⟨"Activation", true, [], []⟩ : Report), true) ∈ h.reports := by
    rw [hreports]
    exact List.mem_singleton_self _
  exact Bool.noConfusion (hall 2000 _ _ h (Run.Reaches.of_exec .start hh) _ hmem rfl)

end EngineHistory

end Atf
