import Atf.ExpectationsList

/-!
# Events that outlive their step (`control_service.lua`, `session_expectations.lua`, `mobile_session_impl.lua`)

An event is registered in the dispatcher and its expectation is put into the list of the step; the report
of the step removes the events of the expectations in the list. Two paths break the pair: `Start` registers
its `StartEvent` and never adds the expectation to the list, and the action of a handshake expectation takes
it out of the list, and only out of the list, when the handshake is finished. In every other run each
expectation of the step stays in the list until the report (`Listed`).
-/

namespace Atf
open Lua

/-! ### What a report removes from the pools -/

namespace TestBase
variable {zeroOccurrenceTimeout now : Int} {s s' : TestBase} {rep : Option Report}

/-- The event of `e` is registered. -/
def Registered (pool : List (Nat × Nat)) (e : StepExpectation) : Prop :=
  ∃ c ev, e.connection = some c ∧ e.event = some ev ∧ (c, ev) ∈ pool

instance (pool : List (Nat × Nat)) (e : StepExpectation) : Decidable (Registered pool e) :=
  match hc : e.connection, hev : e.event with
  | some c, some ev => decidable_of_iff ((c, ev) ∈ pool) (by simp [Registered, hc, hev])
  | none, _ => isFalse (by simp [Registered, hc])
  | some _, none => isFalse (by simp [Registered, hev])

theorem Registered.mono {pool pool' : List (Nat × Nat)} {e : StepExpectation} (h : Registered pool e)
    (hsub : pool ⊆ pool') : Registered pool' e :=
  let ⟨c, ev, hc, hev, hmem⟩ := h
  ⟨c, ev, hc, hev, hsub hmem⟩

theorem unregister_spec {connections : List Nat} {pool pool' : List (Nat × Nat)} {e : StepExpectation}
    (h : unregister connections pool e = .ok pool') :
    pool' ⊆ pool ∧ (e.pinned = false → ¬ Registered pool' e) := by
  unfold unregister at h
  split at h
  · rename_i connection hpin hconn
    unfold removeEvent at h
    split at h
    · split at h
      · rename_i event hevent
        cases h
        refine ⟨List.filter_sublist.subset, ?_⟩
        rintro - ⟨c, ev, hc, hev, hmem⟩
        rw [hconn, Option.some.injEq] at hc
        rw [hevent, Option.some.injEq] at hev
        simp [hc, hev] at hmem
      · cases h
    · cases h
  · rename_i hno
    cases h
    refine ⟨fun _ => id, ?_⟩
    rintro hpin ⟨c, ev, hc, -⟩
    exact hno c (by rw [hpin]; rfl) hc

theorem foldlM_judge_pool {connections : List Nat} {es : List StepExpectation} {j j' : Judgement}
    (h : es.foldlM (judge connections) j = .ok j') :
    j'.pool ⊆ j.pool ∧ ∀ e ∈ es, e.pinned = false → ¬ Registered j'.pool e := by
  induction es generalizing j with
  | nil => cases h; exact ⟨fun _ => id, by simp⟩
  | cons e es ih =>
    rw [List.foldlM_cons] at h
    obtain ⟨j₁, hj₁, h⟩ := bind_eq_ok.mp h
    obtain ⟨pool, hpool, hj₁⟩ := bind_eq_ok.mp hj₁
    cases hj₁
    obtain ⟨hsub, hgone⟩ := unregister_spec hpool
    obtain ⟨hsub', hrest⟩ := ih h
    refine ⟨fun p hp => hsub (hsub' hp), ?_⟩
    intro e' he' hpin hreg
    rcases List.mem_cons.mp he' with rfl | he'
    · exact hgone hpin (hreg.mono hsub')
    · exact hrest e' he' hpin hreg

/-- The loop ends only if it has visited the whole list. -/
theorem judgeAll_pool {success : Bool} {j : Judgement} (h : s.judgeAll success = .ok j) :
    ∀ e ∈ s.expectationsList.expectations ++ s.expectationsList.pinned, e.pinned = false →
      ¬ Registered j.pool e := by
  unfold judgeAll at h
  by_cases hkind : s.expectationsList.expectations = [] ∨ s.expectationsList.pinned = []
  · rw [ExpectationsList.visit_eq hkind] at h
    exact (foldlM_judge_pool h).2
  · obtain ⟨he, hp⟩ := not_or.mp hkind
    rw [ExpectationsList.visit_eq_none he hp] at h
    cases h

theorem stopIfMandatory_pool {success : Bool} (h : s.stopIfMandatory success = .ok s') : s'.pool = s.pool := by
  rcases stopIfMandatory_cases h with ⟨-, rfl⟩ | ⟨sdl, -, rfl⟩
  · rfl
  · split <;> rfl

theorem reportStep_pool {name : String} {success : Bool} (h : s.reportStep name success = .ok (s', rep)) :
    ∀ e ∈ s.expectationsList.expectations ++ s.expectationsList.pinned, e.pinned = false →
      ¬ Registered s'.pool e := by
  obtain ⟨j, hj, h⟩ := bind_eq_ok.mp h
  obtain ⟨s₁, hs₁, h⟩ := bind_eq_ok.mp h
  cases h
  rw [show ({ s₁ with pendingNext := s₁.pendingNext + 1 } : TestBase).pool = s₁.pool from rfl,
    stopIfMandatory_pool hs₁]
  exact judgeAll_pool hj

theorem wait_pinned {connection : Option Nat} (h : s.wait zeroOccurrenceTimeout now connection = .ok s') :
    s'.expectationsList.pinned = s.expectationsList.pinned := by
  obtain ⟨s₁, hs₁, h⟩ := bind_eq_ok.mp h
  obtain ⟨pool, rfl⟩ := addEvent_eq_ok hs₁
  cases h
  rfl

/-- The delays leave every expectation in the list, with its connection and its event. -/
theorem applyDelays_keeps (h : s.applyDelays zeroOccurrenceTimeout now = .ok s') {e : StepExpectation}
    (he : e ∈ s.expectationsList.expectations ++ s.expectationsList.pinned) :
    ∃ e' ∈ s'.expectationsList.expectations ++ s'.expectationsList.pinned,
      e'.connection = e.connection ∧ e'.event = e.event ∧ e'.pinned = e.pinned := by
  obtain ⟨added, -, -, heq⟩ := (foldlM_wait_waiting h).expectations
  have hpin : s'.expectationsList.pinned = s.expectationsList.pinned :=
    foldlM_invariant (I := fun s₁ => s₁.expectationsList.pinned = s.expectationsList.pinned) h rfl
      fun _ _ _ hs hw => (wait_pinned hw).trans hs
  rcases List.mem_append.mp he with he | he
  · refine ⟨{ e with isDelayNeedsToBeApplied := false }, ?_, rfl, rfl, rfl⟩
    rw [heq, List.append_assoc]
    refine List.mem_append_left _ ?_
    exact List.mem_map_of_mem he
  · refine ⟨e, List.mem_append_right _ ?_, rfl, rfl, rfl⟩
    rw [hpin]
    exact he

theorem checkExpectations_pool {name : String} {success : Bool} {r : Report}
    (h : s.checkExpectations zeroOccurrenceTimeout now name success = .ok (s', some r)) :
    ∀ e ∈ s.expectationsList.expectations ++ s.expectationsList.pinned, e.pinned = false →
      ¬ Registered s'.pool e := by
  obtain ⟨s₁, hs₁, h⟩ := bind_eq_ok.mp h
  intro e he hpin
  obtain ⟨e', he', hc, hev, hpin'⟩ := applyDelays_keeps hs₁ he
  split at h
  · cases h
  · split at h
    · cases h
    · have hgone := reportStep_pool h e' he' (hpin'.trans hpin)
      rwa [Registered, hc, hev] at hgone

/-- A call of `checkStatus` that reports the step has removed the events of the list. -/
theorem checkStatus_pool {r : Report} (h : s.checkStatus zeroOccurrenceTimeout now = .ok (s', some r)) :
    ∀ e ∈ s.expectationsList.expectations ++ s.expectationsList.pinned, e.pinned = false →
      ¬ Registered s'.pool e := by
  unfold checkStatus at h
  split at h
  · cases h
  · split at h
    · cases h
    · obtain ⟨status, -, h⟩ := bind_eq_ok.mp h
      split at h
      · exact checkExpectations_pool (s := s.onCrash) h
      · exact checkExpectations_pool h

end TestBase

/-! ### Sessions and steps -/

/-- What the functions given to `Do` mean for the list: the action of the handshake, and that of `Start`,
which expects the response to `RegisterAppInterface`. -/
inductive SessionAction
  | nothing | handshake | registerApp
deriving DecidableEq, Repr

/-- The engine with the expectations as objects: `engine.expectationsList` is not used, the list is `heap`
(see `toTest`), in which they have the numbers before `fresh`. `created` are the expectations created since the
last report, `leaked` those of them that were not pinned and whose events a report has left registered. -/
structure StepWorld where
  engine : TestBase
  heap : ListHeap
  value : Nat → StepExpectation
  action : Nat → SessionAction
  fresh : Nat
  created : List Nat
  leaked : List Nat

namespace StepWorld

/-- The engine before the first step; expectations are made with `pinned = false`. -/
def start (caseNames : List String) (w : Surroundings) : StepWorld :=
  { engine := .start caseNames w, heap := .empty fun _ => false
    value := fun _ => .new "" none 0, action := fun _ => .nothing, fresh := 0, created := [], leaked := [] }

def object (self : StepWorld) (e : Nat) : StepExpectation := { self.value e with pinned := self.heap.isPinned e }

/-- The engine with the list it works on. -/
def toTest (self : StepWorld) : TestBase := { self.engine with expectationsList := self.heap.view self.object }

/-- `Expectation(name, connection)` with its event. -/
def create (self : StepWorld) (exp : StepExpectation) (action : SessionAction) : StepWorld :=
  { self with
    heap := { self.heap with isPinned := Function.update self.heap.isPinned self.fresh false }
    value := Function.update self.value self.fresh exp
    action := Function.update self.action self.fresh action
    fresh := self.fresh + 1, created := self.created ++ [self.fresh] }

/-- `AddEvent`; an event of another level is put into no pool. -/
def addEvent (self : StepWorld) (connection event level : Nat) : LuaM StepWorld :=
  if level ≤ 3 then do
    let engine ← self.engine.addEvent (some connection) event
    return { self with engine }
  else .ok self

/-- `Event()`, under the next number of the engine, which `wait` takes its events from as well. -/
def newEvent (self : StepWorld) : Nat × StepWorld :=
  (self.engine.fresh, { self with engine := { self.engine with fresh := self.engine.fresh + 1 } })

/-- `AddExpectation` of the expectation made last. -/
def addLast (self : StepWorld) (e : Nat) : StepWorld := { self with heap := self.heap.add e }

/-- `ExpectEvent` -/
def expectEvent (self : StepWorld) (connection event level : Nat) (name : String) (ts : Int)
    (action : SessionAction) : LuaM StepWorld := do
  let e := self.fresh
  let self := self.create { StepExpectation.new name (some connection) ts with event := some event } action
  let self ← self.addEvent connection event level
  return self.addLast e

def startService (self : StepWorld) (connection : Nat) (ts : Int) (action : SessionAction) : LuaM StepWorld :=
  self.newEvent.2.expectEvent connection self.newEvent.1 2 "StartService ACK" ts action

/-- `StartSecureService`, with `performStartServiceHandshake` unless the session is secured. -/
def startSecureService (self : StepWorld) (connection : Nat) (isSecuredSession : Bool) (ts : Int) :
    LuaM StepWorld := do
  let self ← self.startService connection ts .nothing
  if !isSecuredSession then
    self.newEvent.2.expectEvent connection self.newEvent.1 2 "Handshake" ts .handshake
  else return self

/-- `Start`: the expectation of `StartEvent` is registered, and not added to the list. -/
def startApp (self : StepWorld) (connection : Nat) (ts : Int) : LuaM StepWorld := do
  let (event, self) := self.newEvent
  let self ← self.startService connection ts .registerApp
  let self := self.create { StepExpectation.new "StartEvent" (some connection) ts with event := some event } .nothing
  self.addEvent connection event 2

/-- The action of an expectation whose event a message has matched. -/
def occur (self : StepWorld) (e : Nat) (handshakeFinished : Bool) (cor_id : Nat) (ts : Int) : LuaM StepWorld :=
  match self.action e with
  | .nothing => .ok self
  | .handshake =>
    if handshakeFinished then do
      let heap ← self.heap.remove e
      return { self with heap }
    else .ok self
  | .registerApp =>
    if (self.value e).status = some .FAILED then .ok self
    else
      match (self.value e).connection with
      | some connection =>
        self.newEvent.2.expectEvent connection self.newEvent.1 2 ("Response to " ++ toString cor_id) ts .nothing
      | none => .ok self

/-! ### `CheckStatus` on the objects -/

def adopt (self : StepWorld) (exp : StepExpectation) : StepWorld :=
  (self.create exp .nothing).addLast self.fresh

/-- What a call that does not report has done to the list: no delay is left to be applied, and the
expectations of `wait` stand at its end. -/
def absorb (self : StepWorld) (test : TestBase) : StepWorld :=
  (test.expectationsList.expectations.drop self.heap.expectations.length).foldl adopt
    { self with
      engine := test
      value := fun e =>
        if e ∈ self.heap.expectations then { self.value e with isDelayNeedsToBeApplied := false } else self.value e }

/-- The step has been reported: the list is cleared. -/
def reported (self : StepWorld) (test : TestBase) : StepWorld :=
  let self := { self with engine := test, heap := self.heap.clear }
  { self with
    created := []
    leaked := self.leaked ++ self.created.filter fun e =>
      !self.heap.isPinned e && decide (TestBase.Registered self.engine.pool (self.value e)) }

def checkStatus (self : StepWorld) (zeroOccurrenceTimeout now : Int) : LuaM StepWorld := do
  let (test, report) ← self.toTest.checkStatus zeroOccurrenceTimeout now
  return if report.isSome then self.reported test else self.absorb test

/-- `FailTestCase`: an expectation without connection that has failed. -/
def failTestCase (self : StepWorld) (zeroOccurrenceTimeout now : Int) (cause : String) : LuaM StepWorld :=
  (self.adopt (TestBase.autoFail now cause)).checkStatus zeroOccurrenceTimeout now

/-! ### Runs -/

/-- Calls of a step's functions, messages that match a registered event, validations, and the calls of the
event loop, in any order. -/
inductive SessionCall
  | expectEvent (connection event level : Nat) (name : String) (ts : Int)
  | startService (connection : Nat) (ts : Int)
  | startSecureService (connection : Nat) (isSecuredSession : Bool) (ts : Int)
  | startApp (connection : Nat) (ts : Int)
  | occur (e : Nat) (handshakeFinished : Bool) (cor_id : Nat) (ts : Int)
  | judged (e : Nat) (data : ExpectationData)
  | pin (e : Nat)
  | unpin (e : Nat)
  | sdl (sdl : Sdl)
  | critical (val : Bool)
  | runNextCase
  | checkStatus (now : Int)
  | failTestCase (now : Int) (cause : String)

def step (zeroOccurrenceTimeout : Int) (self : StepWorld) : SessionCall → LuaM StepWorld
  | .expectEvent connection event level name ts => self.expectEvent connection event level name ts .nothing
  | .startService connection ts => self.startService connection ts .nothing
  | .startSecureService connection isSecuredSession ts => self.startSecureService connection isSecuredSession ts
  | .startApp connection ts => self.startApp connection ts
  | .occur e handshakeFinished cor_id ts =>
    if TestBase.Registered self.engine.pool (self.value e) then self.occur e handshakeFinished cor_id ts
    else .ok self
  | .judged e data =>
    .ok { self with value := Function.update self.value e { self.value e with toExpectationData := data } }
  | .pin e => .ok { self with heap := self.heap.pin false e }
  | .unpin e => .ok { self with heap := self.heap.unpin false e }
  | .sdl sdl => .ok { self with engine := { self.engine with sdl } }
  | .critical val => .ok { self with engine := { self.engine with currentCaseMandatory := val } }
  | .runNextCase => self.engine.runNextCase.map fun engine => { self with engine }
  | .checkStatus now => self.checkStatus zeroOccurrenceTimeout now
  | .failTestCase now cause => self.failTestCase zeroOccurrenceTimeout now cause

/-- Not a call of `Start`, and not a message for a handshake expectation when the handshake is finished. -/
def KeepsListed (self : StepWorld) : SessionCall → Prop
  | .startApp _ _ => False
  | .occur e handshakeFinished _ _ => self.action e = .handshake → handshakeFinished = false
  | _ => True

/-- Every expectation created since the last report is in the list, and no report has left an event. -/
structure Listed (w : StepWorld) : Prop where
  listed : ∀ e ∈ w.created, e ∈ w.heap.members
  clean : w.leaked = []

variable {w w' : StepWorld} {zeroOccurrenceTimeout : Int}

theorem mem_members_add {heap : ListHeap} {e e' : Nat} :
    e' ∈ (heap.add e).members ↔ e' ∈ heap.members ∨ e' = e := by
  unfold ListHeap.add
  split
  · simp [ListHeap.members, or_assoc]
  · simp only [ListHeap.members, List.mem_append, List.mem_singleton]
    tauto

theorem addEvent_eq_ok {connection event level : Nat} (h : w.addEvent connection event level = .ok w') :
    ∃ engine, w' = { w with engine } := by
  unfold addEvent at h
  split at h
  · obtain ⟨engine, -, h⟩ := bind_eq_ok.mp h
    cases h
    exact ⟨engine, rfl⟩
  · cases h
    exact ⟨w.engine, rfl⟩

namespace Listed

theorem start (caseNames : List String) (s : Surroundings) : (start caseNames s).Listed := ⟨nofun, rfl⟩

theorem newEvent (h : w.Listed) : w.newEvent.2.Listed := ⟨h.listed, h.clean⟩

/-- An expectation that is created and added. -/
theorem createAdd (h : w.Listed) (exp : StepExpectation) (action : SessionAction) (engine : TestBase) :
    (addLast { w.create exp action with engine } w.fresh).Listed := by
  refine ⟨fun e he => ?_, h.clean⟩
  show e ∈ (ListHeap.add _ w.fresh).members
  rw [mem_members_add]
  rcases List.mem_append.mp he with he | he
  · exact .inl (h.listed e he)
  · exact .inr (List.mem_singleton.mp he)

theorem expectEvent (h : w.Listed) {connection event level : Nat} {name : String} {ts : Int}
    {action : SessionAction} (hs : w.expectEvent connection event level name ts action = .ok w') : w'.Listed := by
  obtain ⟨w₁, hw₁, hs⟩ := bind_eq_ok.mp hs
  obtain ⟨engine, rfl⟩ := addEvent_eq_ok hw₁
  cases hs
  exact h.createAdd _ _ engine

theorem startService (h : w.Listed) {connection : Nat} {ts : Int} {action : SessionAction}
    (hs : w.startService connection ts action = .ok w') : w'.Listed := h.newEvent.expectEvent hs

theorem startSecureService (h : w.Listed) {connection : Nat} {isSecuredSession : Bool} {ts : Int}
    (hs : w.startSecureService connection isSecuredSession ts = .ok w') : w'.Listed := by
  obtain ⟨w₁, hw₁, hs⟩ := bind_eq_ok.mp hs
  have h₁ := h.startService hw₁
  split at hs
  · exact h₁.newEvent.expectEvent hs
  · cases hs
    exact h₁

/-- The action takes nothing out of the list, since the handshake is not finished. -/
theorem occur (h : w.Listed) {e cor_id : Nat} {handshakeFinished : Bool} {ts : Int}
    (hk : w.action e = .handshake → handshakeFinished = false)
    (hs : w.occur e handshakeFinished cor_id ts = .ok w') : w'.Listed := by
  unfold StepWorld.occur at hs
  split at hs
  · cases hs
    exact h
  · rename_i hact
    rw [hk hact] at hs
    cases hs
    exact h
  · split at hs
    · cases hs
      exact h
    · split at hs
      · exact h.newEvent.expectEvent hs
      · cases hs
        exact h

theorem absorb (h : w.Listed) (test : TestBase) : (w.absorb test).Listed := by
  unfold StepWorld.absorb
  have hstart : Listed { w with
      engine := test
      value := fun e =>
        if e ∈ w.heap.expectations then { w.value e with isDelayNeedsToBeApplied := false } else w.value e } :=
    ⟨h.listed, h.clean⟩
  generalize test.expectationsList.expectations.drop w.heap.expectations.length = added
  revert hstart
  generalize ({ w with engine := test, value := _ } : StepWorld) = w₁
  intro h₁
  induction added generalizing w₁ with
  | nil => exact h₁
  | cons exp added ih => exact ih _ (h₁.createAdd exp .nothing w₁.engine)

/-- The report removes the events of the list, which are those of the step. -/
theorem reported (h : w.Listed) {now : Int} {test : TestBase} {r : Report}
    (hs : w.toTest.checkStatus zeroOccurrenceTimeout now = .ok (test, some r)) : (w.reported test).Listed := by
  refine ⟨nofun, ?_⟩
  show w.leaked ++ w.created.filter _ = []
  rw [h.clean, List.nil_append, List.filter_eq_nil_iff]
  intro e he
  have hmem : w.object e ∈ w.toTest.expectationsList.expectations ++ w.toTest.expectationsList.pinned := by
    show w.object e ∈ w.heap.expectations.map w.object ++ w.heap.pinned.map w.object
    rw [← List.map_append]
    exact List.mem_map_of_mem (h.listed e he)
  have hgone := TestBase.checkStatus_pool hs (w.object e) hmem
  simp only [Bool.and_eq_true, Bool.not_eq_true', decide_eq_true_eq, not_and]
  exact hgone

theorem checkStatus (h : w.Listed) {now : Int} (hs : w.checkStatus zeroOccurrenceTimeout now = .ok w') :
    w'.Listed := by
  obtain ⟨⟨test, report⟩, hcheck, hs⟩ := bind_eq_ok.mp hs
  cases hs
  cases report with
  | none => exact h.absorb test
  | some r => exact h.reported hcheck

theorem step (h : w.Listed) {c : SessionCall} (hk : w.KeepsListed c)
    (hs : w.step zeroOccurrenceTimeout c = .ok w') : w'.Listed := by
  cases c with
  | expectEvent => exact h.expectEvent hs
  | startService => exact h.startService hs
  | startSecureService => exact h.startSecureService hs
  | startApp => exact hk.elim
  | occur e handshakeFinished cor_id ts =>
    simp only [StepWorld.step] at hs
    split at hs
    · exact h.occur hk hs
    · cases hs
      exact h
  | judged | pin | unpin | sdl | critical =>
    cases hs
    exact ⟨h.listed, h.clean⟩
  | runNextCase =>
    obtain ⟨engine, -, rfl⟩ := map_eq_ok.mp hs
    exact ⟨h.listed, h.clean⟩
  | checkStatus now => exact h.checkStatus hs
  | failTestCase now cause => exact (h.createAdd (TestBase.autoFail now cause) .nothing w.engine).checkStatus hs

end Listed

/-- In every run without a call of `Start` and without a message for a handshake expectation when the
handshake is finished, a reported step has left no event of an unpinned expectation in the pools. -/
theorem no_event_leaks (zeroOccurrenceTimeout : Int) (caseNames : List String) (s : Surroundings)
    (hr : Run.Reaches (step zeroOccurrenceTimeout) KeepsListed (start caseNames s) w) : w.leaked = [] :=
  (hr.invariant (Listed.start caseNames s) fun _ _ _ h hk hs => h.step hk hs).clean

/-! ### Examples of runs -/

instance (w : StepWorld) : ∀ c, Decidable (w.KeepsListed c)
  | .startApp _ _ => inferInstanceAs (Decidable False)
  | .occur e handshakeFinished _ _ =>
    inferInstanceAs (Decidable (w.action e = .handshake → handshakeFinished = false))
  | .expectEvent .. | .startService .. | .startSecureService .. | .judged .. | .pin _ | .unpin _ | .sdl _
  | .critical _ | .runNextCase | .checkStatus _ | .failTestCase .. => inferInstanceAs (Decidable True)

namespace Sample
open EngineHistory.Sample (sdl)

def world : StepWorld :=
  start ["Activation"] { EngineHistory.Sample.surroundings [] (sdl true) with pool := [] }

def success : ExpectationData :=
  { (StepExpectation.new "settled" (some 1) 0).toExpectationData with status := some .SUCCESS }

/-- A secure service is started and answered; 0 is the expectation of the answer, 1 that of the handshake,
which the step does not wait for to finish when `handshakeFinished` is `false`. -/
def secureService (handshakeFinished : Bool) : List SessionCall :=
  [.runNextCase, .startSecureService 1 false 0, .occur 1 handshakeFinished 0 5, .judged 0 success,
    .judged 1 success, .checkStatus 400, .checkStatus 800]

/-- `Start`: 0 is the expectation of the answer, 1 that of `StartEvent`. -/
def startApp : List SessionCall :=
  [.runNextCase, .startApp 1 0, .judged 0 success, .checkStatus 400, .checkStatus 800]

end Sample

theorem no_event_leaks_secureService :
    ∃ w, Run.Reaches (step 2000) KeepsListed Sample.world w ∧ w.engine.currentCaseIndex = 1 ∧
      w.engine.pendingNext = 1 ∧ w.leaked = [] := by
  have hrun : (Run.exec (step 2000) KeepsListed Sample.world (Sample.secureService false)).map
      (fun w => (w.engine.currentCaseIndex, w.engine.pendingNext)) = some (1, 1) := by
    decide +kernel
  obtain ⟨w, hw, heq⟩ := Option.map_eq_some_iff.mp hrun
  have hr := Run.Reaches.of_exec .start hw
  exact ⟨w, hr, (Prod.mk.inj heq).1, (Prod.mk.inj heq).2, no_event_leaks 2000 _ _ hr⟩

/-- Both paths leave an event: that of the finished handshake, and that of `Start`. -/
theorem handshake_and_start_leak :
    ((Run.exec (step 2000) (fun _ _ => True) Sample.world (Sample.secureService true)).map
        fun w => (w.leaked, w.engine.pool)) = some ([1], [(1, 3)]) ∧
      ((Run.exec (step 2000) (fun _ _ => True) Sample.world Sample.startApp).map
        fun w => (w.leaked, w.engine.pool)) = some ([1], [(1, 2)]) := by
  constructor <;> decide +kernel

end StepWorld

end Atf
