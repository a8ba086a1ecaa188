import Atf.Expectations

/-!
# The step engine (`testbase.lua`, with the status of SDL from `SDL.lua`)

Test steps run one after another. `runNextCase` makes a step current; `checkStatus` is called by a timer,
after every event and by `failTestCase`, and returns early until the expectations of the step are settled
for the second time. The call that goes through reports the step and queues the signal `next()`, which
the event loop delivers later. A raise in a slot is not caught (`lua_call` in `qtdynamic.cc`), so it ends
the run.
-/

namespace Atf
open Lua

/-! ### SDL -/

inductive SdlStatus
  | STOPPED | RUNNING | CRASH | IDLE
deriving DecidableEq, Repr

/-- What `SDL.lua` reads and writes: `pidFile` is the content of `sdl.pid`, `proc` the existing entries of
`/proc`, and `appStatus` the two values that the remote `CheckAppStatus` returns. -/
structure Sdl where
  exitOnCrash : Bool
  autoStarted : Bool
  pidFile : Option String
  proc : String → Bool
  remoteEnabled : Bool
  appStatus : Bool × String

namespace Sdl

def checkStatusSDL (self : Sdl) : LuaM SdlStatus :=
  if self.remoteEnabled then
    if self.appStatus.1 then
      if self.appStatus.2 = "-1" then .ok .IDLE
      else if self.appStatus.2 = "0" then .ok .STOPPED
      else if self.appStatus.2 = "1" then .ok .RUNNING
      else .error "Remote utils: unknown Appstatus of SDL was received"
    else .error "Remote utils: unable to get Appstatus of SDL"
  else
    match self.pidFile with
    | some pid => if self.proc pid then .ok .RUNNING else .ok .CRASH
    | none => .ok .STOPPED

def deleteFile (self : Sdl) : Sdl := { self with pidFile := none }

/-- `StopSDL`; what the stopped process leaves in `/proc` is up to the system. -/
def stopSDL (self : Sdl) : LuaM Sdl := do
  let self := { self with autoStarted := false }
  let _ ← self.checkStatusSDL
  return self.deleteFile

end Sdl

/-! ### The list of expectations -/

/-- An expectation as the step engine sees it. Connections and events are objects, compared by identity. -/
structure StepExpectation extends ExpectationData where
  connection : Option Nat
  event : Option Nat

def StepExpectation.new (name : String) (connection : Option Nat) (ts : Int) : StepExpectation :=
  { (Expectation.new name ts : Expectation Unit).toExpectationData with connection, event := none }

structure ExpectationsList where
  expectations : List StepExpectation
  pinned : List StepExpectation

namespace ExpectationsList

def add (self : ExpectationsList) (exp : StepExpectation) : ExpectationsList :=
  if exp.pinned then { self with pinned := self.pinned ++ [exp] }
  else { self with expectations := self.expectations ++ [exp] }

def clear (self : ExpectationsList) : ExpectationsList := { self with expectations := [] }

/-- The iterator of `ipairs`: `i` is the index that it returned last, so the index of a pinned expectation
starts again at 1. -/
def expnext (self : ExpectationsList) (i : Nat) : Option (Nat × StepExpectation) :=
  match self.expectations[i]? with
  | some e => some (i + 1, e)
  | none =>
    match self.pinned[i - self.expectations.length]? with
    | some e => some (i - self.expectations.length + 1, e)
    | none => none

/-- The expectations that a loop over `ipairs` visits, if it ends within `fuel` calls of the iterator. -/
def visit (self : ExpectationsList) : Nat → Nat → Option (List StepExpectation)
  | 0, _ => none
  | fuel + 1, i =>
    match self.expnext i with
    | none => some []
    | some (j, e) => (self.visit fuel j).map (e :: ·)

end ExpectationsList

/-! ### State -/

/-- What code outside the engine may change between two calls: the step's own functions, expectations
that occur or time out, timers, and SDL itself. -/
structure Surroundings where
  expectationsList : ExpectationsList
  -- the event dispatcher: the connections it knows, and its events with their connections
  connections : List Nat
  pool : List (Nat × Nat)
  -- the events that a timer of `RunAfter` will raise
  timers : List (Nat × Nat × Int)
  -- the next event object
  fresh : Nat
  currentCaseMandatory : Bool
  sdl : Sdl

structure TestBase extends Surroundings where
  -- the names of `test_cases`
  caseNames : List String
  currentCaseIndex : Nat
  currentCaseName : Option String
  isStepCompleted : Bool
  totalTestsetResult : Bool
  -- signals `next()` that are not delivered yet
  pendingNext : Nat
  quitCalled : Bool
  retCode : Nat

/-- What `PrintCaseResult` and `CaseMessageTotal` are given. -/
structure Report where
  name : String
  success : Bool
  errorMessage : Dict String String
  warningMessage : Dict String String
deriving DecidableEq, Repr

namespace ExitCodes

def aborted : Nat := 1
def failed : Nat := 2
def skipped : Nat := 4

end ExitCodes

namespace TestBase

/-- The engine after `main`, which asks for the first step. -/
def start (caseNames : List String) (w : Surroundings) : TestBase :=
  { w with
    caseNames, currentCaseIndex := 0, currentCaseName := none, isStepCompleted := false
    totalTestsetResult := true, pendingNext := 1, quitCalled := false, retCode := 0 }

def addExpectation (self : TestBase) (exp : StepExpectation) : TestBase :=
  { self with expectationsList := self.expectationsList.add exp }

/-- `event_dispatcher:AddEvent` for an event of level 3 -/
def addEvent (self : TestBase) (connection : Option Nat) (event : Nat) : LuaM TestBase :=
  match connection with
  | some c =>
    if c ∈ self.connections then .ok { self with pool := self.pool ++ [(c, event)] }
    else .error "attempt to index a nil value"
  | none => .error "attempt to index a nil value"

def stopSDL (self : TestBase) : LuaM TestBase := do
  let sdl ← self.sdl.stopSDL
  return { self with sdl }

/-- `quit` of `lua_interpreter.cc`: without a code the last one stays. -/
def quit (self : TestBase) (code : Option Nat) : TestBase :=
  { self with quitCalled := true, retCode := code.getD self.retCode }

/-! ### Steps -/

def finishTestCaseRun (self : TestBase) : LuaM TestBase := do
  let self ← if self.sdl.autoStarted then self.stopSDL else pure self
  let self := { self with currentCaseName := none }
  return self.quit (if self.totalTestsetResult then none else some ExitCodes.failed)

/-- `runNextCase`, for a signal `next()`, up to the call of the step's own function. -/
def runNextCase (self : TestBase) : LuaM TestBase :=
  if self.pendingNext = 0 then .ok self
  else
    let self := { self with
      isStepCompleted := false, currentCaseIndex := self.currentCaseIndex + 1
      pendingNext := self.pendingNext - 1 }
    match self.caseNames[self.currentCaseIndex - 1]? with
    | some name => .ok { self with currentCaseName := some name, currentCaseMandatory := false }
    | none => self.finishTestCaseRun

/-! ### `CheckStatus` -/

/-- An expectation that is settled by a timer after `zeroOccurrenceTimeout`. -/
def wait (zeroOccurrenceTimeout now : Int) (connection : Option Nat) (self : TestBase) : LuaM TestBase := do
  let event := self.fresh
  let self := { self with fresh := self.fresh + 1 }
  let ret := { StepExpectation.new "Wait" connection now with
    event := some event, timeout := zeroOccurrenceTimeout + 5000 }
  let self ← self.addEvent connection event
  let self := self.addExpectation ret
  return { self with
    timers := self.timers ++ (connection.map fun c => (c, event, zeroOccurrenceTimeout)).toList }

/-- The connections of the expectations whose delay is still to be applied, and the list without them. -/
def takeDelays (self : TestBase) : List (Option Nat) × TestBase :=
  ((self.expectationsList.expectations.filter (·.isDelayNeedsToBeApplied)).map (·.connection),
    { self with expectationsList := { self.expectationsList with
        expectations := self.expectationsList.expectations.map fun v =>
          { v with isDelayNeedsToBeApplied := false } } })

def applyDelays (zeroOccurrenceTimeout now : Int) (self : TestBase) : LuaM TestBase :=
  self.takeDelays.1.foldlM (fun self connection => self.wait zeroOccurrenceTimeout now connection)
    self.takeDelays.2

structure Judgement where
  success : Bool
  totalTestsetResult : Bool
  pool : List (Nat × Nat)
  errorMessage : Dict String String
  warningMessage : Dict String String

def removeEvent (connections : List Nat) (pool : List (Nat × Nat)) (connection : Nat) (event : Option Nat) :
    LuaM (List (Nat × Nat)) :=
  if connection ∈ connections then
    match event with
    | some event => .ok (pool.filter (· ≠ (connection, event)))
    | none => .error "index is nil"
  else .error "attempt to index a nil value"

/-- `target[e.name .. ": " .. k] = v` for every entry of `messages` -/
def mergeMessages (name : String) (messages target : Dict String String) : Dict String String :=
  messages.foldl (fun target m => target.set (name ++ ": " ++ m.1) m.2) target

def unregister (connections : List Nat) (pool : List (Nat × Nat)) (e : StepExpectation) :
    LuaM (List (Nat × Nat)) :=
  match !e.pinned, e.connection with
  | true, some connection => removeEvent connections pool connection e.event
  | _, _ => .ok pool

def judge (connections : List Nat) (j : Judgement) (e : StepExpectation) : LuaM Judgement := do
  let pool ← unregister connections j.pool e
  return {
    success := j.success && e.status == some .SUCCESS
    totalTestsetResult := j.totalTestsetResult && e.status == some .SUCCESS
    pool
    errorMessage := mergeMessages e.name e.errorMessage j.errorMessage
    warningMessage := mergeMessages e.name e.warningMessage j.warningMessage }

/-- The loop of `CheckStatus` over `ipairs(Test.expectations_list)`. The fuel is enough for every loop
that ends (`ExpectationsList.visit_eq_none`). -/
def judgeAll (success : Bool) (self : TestBase) : LuaM Judgement :=
  match self.expectationsList.visit
      (self.expectationsList.expectations.length + self.expectationsList.pinned.length + 1) 0 with
  | none => .error "the loop does not end"
  | some es => es.foldlM (judge self.connections) ⟨success, self.totalTestsetResult, self.pool, [], []⟩

def stopIfMandatory (success : Bool) (self : TestBase) : LuaM TestBase :=
  if self.currentCaseMandatory && !success then do
    let self ← self.stopSDL
    return if self.sdl.exitOnCrash then self.quit (some ExitCodes.aborted) else self
  else .ok self

def reportStep (name : String) (success : Bool) (self : TestBase) : LuaM (TestBase × Option Report) := do
  let j ← self.judgeAll success
  let report : Report := ⟨name, j.success, j.errorMessage, j.warningMessage⟩
  let self := { self with
    totalTestsetResult := j.totalTestsetResult, pool := j.pool
    expectationsList := self.expectationsList.clear, currentCaseName := none }
  let self ← self.stopIfMandatory j.success
  return ({ self with pendingNext := self.pendingNext + 1 }, some report)

/-- What `CheckStatus` does when SDL has crashed, besides its local `success`. -/
def onCrash (self : TestBase) : TestBase :=
  { self with currentCaseMandatory := self.sdl.exitOnCrash, sdl := self.sdl.deleteFile }

/-- The part of `CheckStatus` after the status of SDL, with the local `success` it has set. -/
def checkExpectations (zeroOccurrenceTimeout now : Int) (name : String) (success : Bool) (self : TestBase) :
    LuaM (TestBase × Option Report) := do
  let self ← self.applyDelays zeroOccurrenceTimeout now
  if self.expectationsList.expectations.any (·.status == none) then return (self, none)
  else if self.isStepCompleted == false then return ({ self with isStepCompleted := true }, none)
  else self.reportStep name success

def checkStatus (zeroOccurrenceTimeout now : Int) (self : TestBase) : LuaM (TestBase × Option Report) :=
  match self.currentCaseName with
  | none => .ok (self, none)
  | some name =>
    if name = "" then .ok (self, none)
    else do
      let status ← self.sdl.checkStatusSDL
      if status = .CRASH then
        self.onCrash.checkExpectations zeroOccurrenceTimeout now name (!self.sdl.exitOnCrash)
      else self.checkExpectations zeroOccurrenceTimeout now name true

def autoFail (now : Int) (cause : String) : StepExpectation :=
  { StepExpectation.new "AutoFail" none now with status := some .FAILED, errorMessage := [("1", cause)] }

def failTestCase (zeroOccurrenceTimeout now : Int) (cause : String) (self : TestBase) :
    LuaM (TestBase × Option Report) :=
  (self.addExpectation (autoFail now cause)).checkStatus zeroOccurrenceTimeout now

end TestBase

end Atf
