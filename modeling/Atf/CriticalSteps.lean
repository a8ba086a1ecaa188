import Atf.CrashReport

/-!
# Steps in order, up to a failed critical one (`testbase.lua`)

The steps run one after another, each for one signal `next()`, and `quit` ends the event loop, so that no
signal is delivered after it. A step makes itself critical with `critical(true)`. When such a step has failed,
`CheckStatus` stops SDL, but calls `quit` only if `SDL.exitOnCrash` is set, and asks for the next step in any
case. The same flag is written when SDL has crashed: `critical(SDL.exitOnCrash)` takes the criticality of the
step back where `exitOnCrash` is not set.
-/

namespace Atf
open Lua

namespace TestBase
variable {zeroOccurrenceTimeout now : Int} {s s' : TestBase} {rep : Option Report}

/-! ### What `CheckStatus` keeps -/

/-- The fields that the delays leave alone. -/
structure Steady (s s' : TestBase) : Prop where
  caseNames : s'.caseNames = s.caseNames
  currentCaseIndex : s'.currentCaseIndex = s.currentCaseIndex
  currentCaseMandatory : s'.currentCaseMandatory = s.currentCaseMandatory
  quitCalled : s'.quitCalled = s.quitCalled
  pendingNext : s'.pendingNext = s.pendingNext
  sdl : s'.sdl = s.sdl

theorem Steady.trans {s'' : TestBase} (h : s.Steady s') (h' : s'.Steady s'') : s.Steady s'' :=
  ⟨h'.caseNames.trans h.caseNames, h'.currentCaseIndex.trans h.currentCaseIndex,
    h'.currentCaseMandatory.trans h.currentCaseMandatory, h'.quitCalled.trans h.quitCalled,
    h'.pendingNext.trans h.pendingNext, h'.sdl.trans h.sdl⟩

theorem wait_steady {connection : Option Nat} (h : s.wait zeroOccurrenceTimeout now connection = .ok s') :
    s.Steady s' := by
  obtain ⟨s₁, hs₁, h⟩ := bind_eq_ok.mp h
  obtain ⟨pool, rfl⟩ := addEvent_eq_ok hs₁
  cases h
  exact ⟨rfl, rfl, rfl, rfl, rfl, rfl⟩

theorem applyDelays_steady (h : s.applyDelays zeroOccurrenceTimeout now = .ok s') : s.Steady s' := by
  have hstart : s.Steady s.takeDelays.2 := ⟨rfl, rfl, rfl, rfl, rfl, rfl⟩
  exact foldlM_invariant h hstart fun _ _ _ hs hw => hs.trans (wait_steady hw)

/-- Once `quit` has been called it stays so, and no call of `checkStatus` touches the order of the steps. -/
structure Onward (s s' : TestBase) : Prop where
  caseNames : s'.caseNames = s.caseNames
  currentCaseIndex : s'.currentCaseIndex = s.currentCaseIndex
  quitCalled : s.quitCalled = true → s'.quitCalled = true

theorem Steady.onward (h : s.Steady s') : s.Onward s' :=
  ⟨h.caseNames, h.currentCaseIndex, fun hq => h.quitCalled.trans hq⟩

theorem Onward.trans {s'' : TestBase} (h : s.Onward s') (h' : s'.Onward s'') : s.Onward s'' :=
  ⟨h'.caseNames.trans h.caseNames, h'.currentCaseIndex.trans h.currentCaseIndex,
    fun hq => h'.quitCalled (h.quitCalled hq)⟩

/-- A failed mandatory step ends the run exactly if `exitOnCrash` is set. -/
theorem stopIfMandatory_spec {success : Bool} (h : s.stopIfMandatory success = .ok s') :
    s.Onward s' ∧
      (s.currentCaseMandatory = true → success = false → s.sdl.exitOnCrash = true → s'.quitCalled = true) := by
  rcases stopIfMandatory_cases h with ⟨hno, rfl⟩ | ⟨sdl, hsdl, rfl⟩
  · refine ⟨⟨rfl, rfl, id⟩, fun hm hs _ => ?_⟩
    rw [hm, hs] at hno
    cases hno
  · have hexit : sdl.exitOnCrash = s.sdl.exitOnCrash := by
      obtain ⟨_, -, hsdl⟩ := bind_eq_ok.mp hsdl
      cases hsdl
      rfl
    split
    · exact ⟨⟨rfl, rfl, fun _ => rfl⟩, fun _ _ _ => rfl⟩
    · rename_i hno
      refine ⟨⟨rfl, rfl, id⟩, fun _ _ hx => absurd ?_ hno⟩
      exact hexit.trans hx

theorem foldlM_judge_success {connections : List Nat} {es : List StepExpectation} {j j' : Judgement}
    (h : es.foldlM (judge connections) j = .ok j') (hj : j'.success = false) :
    j.success = false ∨ ∃ e ∈ es, e.status ≠ some .SUCCESS := by
  induction es generalizing j with
  | nil => cases h; exact .inl hj
  | cons e es ih =>
    rw [List.foldlM_cons] at h
    obtain ⟨j₁, hj₁, h⟩ := bind_eq_ok.mp h
    obtain ⟨pool, -, hj₁⟩ := bind_eq_ok.mp hj₁
    cases hj₁
    rcases ih h with hs | ⟨e', he', hst⟩
    · rcases Bool.and_eq_false_iff.mp hs with hs | hs
      · exact .inl hs
      · exact .inr ⟨e, List.mem_cons_self, by simpa using hs⟩
    · exact .inr ⟨e', List.mem_cons_of_mem e he', hst⟩

/-- An expectation in the list has not succeeded. -/
def HasFailure (s : TestBase) : Prop :=
  ∃ e ∈ s.expectationsList.expectations ++ s.expectationsList.pinned, e.status ≠ some .SUCCESS

theorem judgeAll_success {success : Bool} {j : Judgement} (h : s.judgeAll success = .ok j)
    (hj : j.success = false) : success = false ∨ s.HasFailure := by
  unfold judgeAll at h
  by_cases hkind : s.expectationsList.expectations = [] ∨ s.expectationsList.pinned = []
  · rw [ExpectationsList.visit_eq hkind] at h
    exact foldlM_judge_success h hj
  · obtain ⟨he, hp⟩ := not_or.mp hkind
    rw [ExpectationsList.visit_eq_none he hp] at h
    cases h

theorem reportStep_stops {name : String} {success : Bool} (h : s.reportStep name success = .ok (s', rep)) :
    s.Onward s' ∧ ∃ r, rep = some r ∧
      (r.success = false → success = false ∨ s.HasFailure) ∧
      (r.success = false → s.currentCaseMandatory = true → s.sdl.exitOnCrash = true → s'.quitCalled = true) := by
  obtain ⟨j, hj, h⟩ := bind_eq_ok.mp h
  obtain ⟨s₁, hs₁, h⟩ := bind_eq_ok.mp h
  obtain ⟨hon, hquit⟩ := stopIfMandatory_spec hs₁
  cases h
  refine ⟨⟨hon.caseNames, hon.currentCaseIndex, hon.quitCalled⟩, _, rfl, judgeAll_success hj, ?_⟩
  intro hfail hm hx
  exact hquit hm hfail hx

theorem applyDelays_hasFailure (h : s.applyDelays zeroOccurrenceTimeout now = .ok s') (hr : s.Ready)
    (hf : s'.HasFailure) : s.HasFailure := by
  have hnone : s.takeDelays.1 = [] := by
    rw [takeDelays, List.map_eq_nil_iff, List.filter_eq_nil_iff]
    intro e he
    rw [(hr.2 e he).2]
    exact Bool.false_ne_true
  rw [applyDelays, hnone] at h
  cases h
  obtain ⟨e, he, hst⟩ := hf
  rcases List.mem_append.mp he with he | he
  · obtain ⟨e', he', rfl⟩ := List.mem_map.mp he
    exact ⟨e', List.mem_append_left _ he', hst⟩
  · exact ⟨e, List.mem_append_right _ he, hst⟩

theorem checkExpectations_stops {name : String} {success : Bool}
    (h : s.checkExpectations zeroOccurrenceTimeout now name success = .ok (s', rep)) :
    s.Onward s' ∧ (rep = none → s'.currentCaseMandatory = s.currentCaseMandatory) ∧
      ∀ r, rep = some r → r.success = false →
        (success = false ∨ s.Ready ∧ s.HasFailure) ∧
          (s.currentCaseMandatory = true → s.sdl.exitOnCrash = true → s'.quitCalled = true) := by
  have hspec := checkExpectations_spec h
  obtain ⟨s₁, hs₁, h⟩ := bind_eq_ok.mp h
  have hst := applyDelays_steady hs₁
  split at h
  · cases h
    exact ⟨hst.onward, fun _ => hst.currentCaseMandatory, nofun⟩
  · split at h
    · cases h
      exact ⟨⟨hst.caseNames, hst.currentCaseIndex, fun hq => hst.quitCalled.trans hq⟩,
        fun _ => hst.currentCaseMandatory, nofun⟩
    · obtain ⟨hon, r, rfl, hcause, hquit⟩ := reportStep_stops h
      refine ⟨hst.onward.trans hon, nofun, ?_⟩
      rintro r ⟨⟩ hfail
      have hready : s.Ready := by
        rcases hspec with ⟨-, hn, -⟩ | ⟨hr, -⟩
        · cases hn
        · exact hr
      refine ⟨(hcause hfail).imp_right fun hf => ⟨hready, applyDelays_hasFailure hs₁ hready hf⟩, ?_⟩
      intro hm hx
      exact hquit hfail (hst.currentCaseMandatory.trans hm) (hst.sdl ▸ hx)

/-- The calls at which `exitOnCrash` decides what becomes of a critical step: SDL has crashed, or the step is
reported with a failure. -/
def AsksExitOnCrash (s : TestBase) : Prop :=
  s.sdl.checkStatusSDL = .ok .CRASH ∨ s.Ready ∧ s.HasFailure

/-- In a critical step, with `exitOnCrash` set where it is asked for, the step stays critical and a failed
report ends the run. -/
theorem checkStatus_stops (h : s.checkStatus zeroOccurrenceTimeout now = .ok (s', rep)) :
    s.Onward s' ∧
      (s.currentCaseMandatory = true → (s.AsksExitOnCrash → s.sdl.exitOnCrash = true) →
        (rep = none → s'.currentCaseMandatory = true) ∧
          ∀ r, rep = some r → r.success = false → s'.quitCalled = true) := by
  unfold checkStatus at h
  split at h
  · cases h
    exact ⟨⟨rfl, rfl, id⟩, fun hm _ => ⟨fun _ => hm, nofun⟩⟩
  · split at h
    · cases h
      exact ⟨⟨rfl, rfl, id⟩, fun hm _ => ⟨fun _ => hm, nofun⟩⟩
    · obtain ⟨status, hstatus, h⟩ := bind_eq_ok.mp h
      split at h
      · rename_i hcrash
        obtain ⟨hon, hkeep, hrep⟩ := checkExpectations_stops h
        refine ⟨⟨hon.caseNames, hon.currentCaseIndex, hon.quitCalled⟩, fun _ hx => ?_⟩
        have hexit : s.sdl.exitOnCrash = true := hx (.inl (hcrash ▸ hstatus))
        exact ⟨fun hn => (hkeep hn).trans hexit, fun r hr hfail => (hrep r hr hfail).2 hexit hexit⟩
      · obtain ⟨hon, hkeep, hrep⟩ := checkExpectations_stops h
        refine ⟨hon, fun hm hx => ⟨fun hn => (hkeep hn).trans hm, fun r hr hfail => ?_⟩⟩
        obtain ⟨hcause, hquit⟩ := hrep r hr hfail
        refine hquit hm (hx (.inr ?_))
        exact hcause.resolve_left nofun

end TestBase

/-! ### Runs -/

/-- Calls of the event loop and of a step's functions; `change` is what other code may do in between. -/
inductive RunEvent
  | checkStatus (now : Int)
  | failTestCase (now : Int) (cause : String)
  | next
  | critical (val : Bool)
  | register (name : String)
  | skipTest
  | change (w : Surroundings)

/-- The engine, the positions of the steps executed so far, whether the last call of `critical` in the current
step was `critical(true)`, and the number of steps executed when a step with such a call was first reported
as failed. -/
structure StepHistory where
  test : TestBase
  executed : List Nat
  critical : Bool
  failedAt : Option Nat

namespace StepHistory

def start (caseNames : List String) (w : Surroundings) : StepHistory := ⟨.start caseNames w, [], false, none⟩

def checked (h : StepHistory) (p : TestBase × Option Report) : StepHistory :=
  let failed := h.critical && p.2.any fun r => !r.success
  { h with
    test := p.1, critical := h.critical && p.2.isNone
    failedAt := if failed && h.failedAt.isNone then some h.executed.length else h.failedAt }

/-- A signal `next()` is delivered while the event loop runs. -/
def deliverNext (h : StepHistory) : LuaM StepHistory :=
  if h.test.quitCalled || h.test.pendingNext == 0 then .ok h
  else do
    let test ← h.test.runNextCase
    return { h with
      test, critical := false
      executed :=
        if h.test.currentCaseIndex < h.test.caseNames.length then h.executed ++ [test.currentCaseIndex]
        else h.executed }

def step (zeroOccurrenceTimeout : Int) (h : StepHistory) : RunEvent → LuaM StepHistory
  | .checkStatus now => (h.test.checkStatus zeroOccurrenceTimeout now).map h.checked
  | .failTestCase now cause => (h.test.failTestCase zeroOccurrenceTimeout now cause).map h.checked
  | .next => h.deliverNext
  | .critical val => .ok { h with test := { h.test with currentCaseMandatory := val }, critical := val }
  | .register name => .ok { h with test := { h.test with caseNames := h.test.caseNames ++ [name] } }
  | .skipTest => .ok { h with test := h.test.quit (some ExitCodes.skipped) }
  | .change w => .ok { h with test := { h.test with
      toSurroundings := { w with currentCaseMandatory := h.test.currentCaseMandatory } } }

/-- Where `exitOnCrash` decides what becomes of a critical step, it is set. -/
def ExitSet (h : StepHistory) : RunEvent → Prop
  | .checkStatus _ => h.critical = true → h.test.AsksExitOnCrash → h.test.sdl.exitOnCrash = true
  | .failTestCase now cause =>
    h.critical = true → (h.test.addExpectation (TestBase.autoFail now cause)).AsksExitOnCrash →
      h.test.sdl.exitOnCrash = true
  | _ => True

variable {h h' : StepHistory} {zeroOccurrenceTimeout : Int}

/-- The steps executed are the first ones, in order and once each. -/
structure InOrder (h : StepHistory) : Prop where
  executed : h.executed = List.range' 1 h.executed.length
  registered : h.executed.length ≤ h.test.caseNames.length
  index : h.test.quitCalled = false → h.test.currentCaseIndex = h.executed.length

theorem finishTestCaseRun_spec {s test : TestBase} (h : s.finishTestCaseRun = .ok test) :
    test.caseNames = s.caseNames ∧ test.quitCalled = true := by
  unfold TestBase.finishTestCaseRun at h
  split at h
  · obtain ⟨s₁, hs₁, h⟩ := bind_eq_ok.mp h
    obtain ⟨sdl, -, hs₁⟩ := bind_eq_ok.mp hs₁
    cases hs₁
    cases h
    exact ⟨rfl, rfl⟩
  · cases h
    exact ⟨rfl, rfl⟩

theorem runNextCase_spec {s test : TestBase} (hp : s.pendingNext ≠ 0) (h : s.runNextCase = .ok test) :
    test.caseNames = s.caseNames ∧
      (s.currentCaseIndex < s.caseNames.length →
        test.currentCaseIndex = s.currentCaseIndex + 1 ∧ test.quitCalled = s.quitCalled) ∧
      (s.caseNames.length ≤ s.currentCaseIndex → test.quitCalled = true) := by
  unfold TestBase.runNextCase at h
  rw [if_neg hp] at h
  simp only [Nat.add_sub_cancel] at h
  rcases Nat.lt_or_ge s.currentCaseIndex s.caseNames.length with hlt | hge
  · rw [List.getElem?_eq_getElem hlt] at h
    cases h
    exact ⟨rfl, fun _ => ⟨rfl, rfl⟩, fun hge => absurd hlt (Nat.not_lt.mpr hge)⟩
  · rw [List.getElem?_eq_none hge] at h
    have hfinish : TestBase.finishTestCaseRun _ = .ok test := h
    obtain ⟨hnames, hquit⟩ := finishTestCaseRun_spec hfinish
    exact ⟨hnames, fun hlt => absurd hlt (Nat.not_lt.mpr hge), fun _ => hquit⟩

namespace InOrder

theorem start (caseNames : List String) (w : Surroundings) : (start caseNames w).InOrder :=
  ⟨rfl, Nat.zero_le _, fun _ => rfl⟩

theorem checked (hi : h.InOrder) {test : TestBase} {rep : Option Report} (hon : h.test.Onward test) :
    (h.checked (test, rep)).InOrder := by
  refine ⟨hi.executed, ?_, fun hq => hon.currentCaseIndex.trans (hi.index ?_)⟩
  · show h.executed.length ≤ test.caseNames.length
    rw [hon.caseNames]
    exact hi.registered
  · rw [← Bool.not_eq_true]
    intro hq'
    rw [show (h.checked (test, rep)).test.quitCalled = true from hon.quitCalled hq'] at hq
    cases hq

theorem deliverNext (hi : h.InOrder) (hs : h.deliverNext = .ok h') : h'.InOrder := by
  unfold StepHistory.deliverNext at hs
  split at hs
  · cases hs
    exact hi
  · rename_i hrun
    obtain ⟨hq, hp⟩ : h.test.quitCalled = false ∧ h.test.pendingNext ≠ 0 := by simpa using hrun
    obtain ⟨test, htest, hs⟩ := bind_eq_ok.mp hs
    cases hs
    obtain ⟨hnames, hnext, hlast⟩ := runNextCase_spec hp htest
    have hindex := hi.index hq
    rcases Nat.lt_or_ge h.test.currentCaseIndex h.test.caseNames.length with hlt | hge
    · obtain ⟨hcur, hquit⟩ := hnext hlt
      have hpos : test.currentCaseIndex = 1 + h.executed.length := by omega
      refine ⟨?_, ?_, fun _ => ?_⟩
      · rw [if_pos hlt, List.length_append, List.length_singleton, List.range'_1_concat, ← hi.executed, hpos]
      · show (ite _ _ _ : List Nat).length ≤ test.caseNames.length
        rw [if_pos hlt, hnames, List.length_append, List.length_singleton]
        omega
      · show test.currentCaseIndex = (ite _ _ _ : List Nat).length
        rw [if_pos hlt, List.length_append, List.length_singleton]
        omega
    · have hnot : ¬ h.test.currentCaseIndex < h.test.caseNames.length := Nat.not_lt.mpr hge
      refine ⟨?_, ?_, fun hq' => ?_⟩
      · rw [if_neg hnot]
        exact hi.executed
      · show (ite _ _ _ : List Nat).length ≤ test.caseNames.length
        rw [if_neg hnot, hnames]
        exact hi.registered
      · rw [show test.quitCalled = true from hlast hge] at hq'
        cases hq'

theorem step (hi : h.InOrder) {e : RunEvent} (hs : h.step zeroOccurrenceTimeout e = .ok h') : h'.InOrder := by
  cases e with
  | checkStatus now =>
    obtain ⟨⟨test, rep⟩, hcheck, rfl⟩ := map_eq_ok.mp hs
    exact hi.checked (TestBase.checkStatus_stops hcheck).1
  | failTestCase now cause =>
    obtain ⟨⟨test, rep⟩, hcheck, rfl⟩ := map_eq_ok.mp hs
    obtain ⟨hon, -⟩ := TestBase.checkStatus_stops hcheck
    exact hi.checked ⟨hon.caseNames, hon.currentCaseIndex, hon.quitCalled⟩
  | next => exact hi.deliverNext hs
  | critical val =>
    cases hs
    exact ⟨hi.executed, hi.registered, hi.index⟩
  | register name =>
    cases hs
    refine ⟨hi.executed, ?_, hi.index⟩
    show h.executed.length ≤ (h.test.caseNames ++ [name]).length
    rw [List.length_append]
    exact Nat.le_add_right_of_le hi.registered
  | skipTest =>
    cases hs
    exact ⟨hi.executed, hi.registered, nofun⟩
  | change w =>
    cases hs
    exact ⟨hi.executed, hi.registered, hi.index⟩

end InOrder

/-- A critical step is mandatory, and the run is over when one was reported as failed. -/
structure Stops (h : StepHistory) : Prop where
  mandatory : h.critical = true → h.test.currentCaseMandatory = true
  ended : ∀ n, h.failedAt = some n → h.test.quitCalled = true ∧ h.executed.length = n

namespace Stops

theorem start (caseNames : List String) (w : Surroundings) : (start caseNames w).Stops := ⟨nofun, nofun⟩

/-- The call may be made on a list with more expectations (`s`), as `failTestCase` does. -/
theorem checked (hi : h.Stops) {s test : TestBase} {rep : Option Report} {now : Int}
    (hm : s.currentCaseMandatory = h.test.currentCaseMandatory) (hq : s.quitCalled = h.test.quitCalled)
    (hx : h.critical = true → s.AsksExitOnCrash → s.sdl.exitOnCrash = true)
    (hs : s.checkStatus zeroOccurrenceTimeout now = .ok (test, rep)) : (h.checked (test, rep)).Stops := by
  obtain ⟨hon, hstop⟩ := TestBase.checkStatus_stops hs
  refine ⟨fun hc => ?_, fun n hn => ?_⟩
  · obtain ⟨hc, hnone⟩ := Bool.and_eq_true_iff.mp hc
    exact (hstop (hm.trans (hi.mandatory hc)) (hx hc)).1 (Option.isNone_iff_eq_none.mp hnone)
  · simp only [StepHistory.checked] at hn ⊢
    split at hn
    · rename_i hfail
      simp only [Bool.and_eq_true, Option.any_eq_true] at hfail
      obtain ⟨⟨hc, r, hr, hnot⟩, -⟩ := hfail
      cases hn
      have hfailed : r.success = false := by simpa using hnot
      exact ⟨(hstop (hm.trans (hi.mandatory hc)) (hx hc)).2 r hr hfailed, rfl⟩
    · obtain ⟨hquit, hlen⟩ := hi.ended n hn
      exact ⟨hon.quitCalled (hq.trans hquit), hlen⟩

theorem deliverNext (hi : h.Stops) (hs : h.deliverNext = .ok h') : h'.Stops := by
  unfold StepHistory.deliverNext at hs
  split at hs
  · cases hs
    exact hi
  · rename_i hrun
    obtain ⟨test, -, hs⟩ := bind_eq_ok.mp hs
    cases hs
    refine ⟨nofun, fun n hn => ?_⟩
    -- a signal is delivered, so no critical step has failed
    rw [(hi.ended n hn).1] at hrun
    exact absurd rfl hrun

theorem step (hi : h.Stops) {e : RunEvent} (hg : h.ExitSet e) (hs : h.step zeroOccurrenceTimeout e = .ok h') :
    h'.Stops := by
  cases e with
  | checkStatus now =>
    obtain ⟨⟨test, rep⟩, hcheck, rfl⟩ := map_eq_ok.mp hs
    exact hi.checked rfl rfl hg hcheck
  | failTestCase now cause =>
    obtain ⟨⟨test, rep⟩, hcheck, rfl⟩ := map_eq_ok.mp hs
    exact hi.checked (s := h.test.addExpectation (TestBase.autoFail now cause)) rfl rfl hg hcheck
  | next => exact hi.deliverNext hs
  | critical val =>
    cases hs
    exact ⟨id, hi.ended⟩
  | register name =>
    cases hs
    exact ⟨hi.mandatory, hi.ended⟩
  | skipTest =>
    cases hs
    exact ⟨hi.mandatory, fun n hn => ⟨rfl, (hi.ended n hn).2⟩⟩
  | change w =>
    cases hs
    exact ⟨hi.mandatory, hi.ended⟩

end Stops

/-- The steps run in order; and in every run in which `exitOnCrash` is set where it decides about a critical
step, no step runs after a failed critical one. -/
theorem critical_failure_is_last (zeroOccurrenceTimeout : Int) (caseNames : List String) (w : Surroundings)
    (hr : Run.Reaches (step zeroOccurrenceTimeout) (fun _ _ => True) (start caseNames w) h) :
    h.executed = List.range' 1 h.executed.length ∧ h.executed.length ≤ h.test.caseNames.length ∧
      (Run.Reaches (step zeroOccurrenceTimeout) ExitSet (start caseNames w) h →
        ∀ n, h.failedAt = some n → h.executed.length = n) := by
  have hi : h.InOrder := hr.invariant (.start caseNames w) fun _ _ _ hi _ hs => hi.step hs
  refine ⟨hi.executed, hi.registered, fun hg n hn => ?_⟩
  have hstop : h.Stops := hg.invariant (.start caseNames w) fun _ _ _ hi hx hs => hi.step hx hs
  exact (hstop.ended n hn).2

/-! ### Examples of runs -/

instance (s : TestBase) : Decidable s.HasFailure :=
  inferInstanceAs (Decidable (∃ e ∈ _, _))

instance (s : TestBase) : Decidable s.AsksExitOnCrash := inferInstanceAs (Decidable (_ ∨ _))

instance (h : StepHistory) : ∀ e, Decidable (h.ExitSet e)
  | .checkStatus _ => inferInstanceAs (Decidable (_ → _ → _))
  | .failTestCase _ _ => inferInstanceAs (Decidable (_ → _ → _))
  | .next | .critical _ | .register _ | .skipTest | .change _ => inferInstanceAs (Decidable True)

/-- The first of two steps is critical and fails. -/
def Sample.criticalFails : List RunEvent :=
  [.next, .critical true, .failTestCase 10 "no answer", .checkStatus 400, .next]

def Sample.twoSteps (exitOnCrash : Bool) : StepHistory :=
  start ["Registration", "Activation"]
    (EngineHistory.Sample.surroundings [] { EngineHistory.Sample.sdl true with exitOnCrash })

theorem critical_failure_is_last_sample :
    ∃ h, Run.Reaches (step 2000) ExitSet (Sample.twoSteps true) h ∧ h.failedAt = some 1 ∧ h.executed.length = 1 := by
  have hrun : (Run.exec (step 2000) ExitSet (Sample.twoSteps true) Sample.criticalFails).map StepHistory.failedAt =
      some (some 1) := by
    decide +kernel
  obtain ⟨h, hh, hfailed⟩ := Option.map_eq_some_iff.mp hrun
  have hr := Run.Reaches.of_exec .start hh
  refine ⟨h, hr, hfailed, ?_⟩
  exact (critical_failure_is_last 2000 _ _ (hr.mono fun _ _ _ => trivial)).2.2 hr 1 hfailed

/-- Without `exitOnCrash` the second step runs after the first, critical one has failed. -/
theorem next_step_after_critical_failure :
    (Run.exec (step 2000) (fun _ _ => True) (Sample.twoSteps false) Sample.criticalFails).map
      (fun h => (h.failedAt, h.executed)) = some (some 1, [1, 2]) := by
  decide +kernel

end StepHistory

end Atf
