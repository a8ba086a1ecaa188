import Atf.Lib.LockFile
import Atf.Lib.TextLines

/-!
# Parallel runs (`parallels.sh`, `loop.sh`)

`prepareQueue` and `prepareNumOfWorkers` write the queue of scripts and count the workers. `loop` is the
program of a worker, with a location for each command of `pop` and `main` that can meet another worker; the
shell variables in use are kept in the location. `sed -i` is two commands: it reads the queue, and it renames
its output to it. The lock file is the one of `LockFile`, and `int_handler` the handler of an interrupt. A text
has no NUL. `pops` is the record of the rows that `pop` prints, as the values of `CURRENT_ID` and `LINE`.
-/

namespace Atf
namespace Parallels
open TextLines LockFile

abbrev Text := List Char

/-- What separates the fields of a line. -/
def isBlankChar (c : Char) : Bool := c = ' ' || c = '\t'

/-- `awk '{print $1}'` of a line. -/
def firstField (line : Text) : Text := ((body line).dropWhile isBlankChar).takeWhile fun c => !isBlankChar c

/-! ### The queue -/

/-- The expression `^;($|[^.])`. -/
def isComment : Text → Bool
  | [';'] => true
  | ';' :: c :: _ => c ≠ '.'
  | _ => false

/-- `${name##*.}` -/
def extension (name : Text) : Text := (name.reverse.takeWhile (· ≠ '.')).reverse

/-- What the test target is: a file with its content, or a directory with the sorted output of `find`. -/
inductive Target
  | file (content : Text)
  | directory (scripts : List Text)
  | other

/-- The queue file, or the message with which the run ends. -/
def prepareQueue (testfile : Text) (target : Target) : Except Text Text :=
  let quoted := "'".toList ++ testfile ++ "'".toList
  let queue : Except Text Text :=
    match target with
    | .file content =>
      if extension testfile = "lua".toList then .ok (testfile ++ ['\n'])
      else if extension testfile = "txt".toList then .ok content
      else .error ("Test target extention can not be recognized: ".toList ++ quoted)
    | .directory scripts =>
      if scripts.isEmpty then .error ("Failed to find any test scripts in: ".toList ++ quoted)
      else .ok (scripts.flatMap fun script => script ++ ['\n'])
    | .other => .error ("Unsupported test target format: ".toList ++ quoted)
  queue.map (deleteLines isComment)

/-- `wc -l` counts newlines. -/
def prepareNumOfWorkers (queue : Text) (JOBS : Nat) : Nat :=
  let num := queue.count '\n'
  if num < JOBS then num else JOBS

/-! ### The worker -/

structure Pop where
  id : Nat
  LINE : Text
deriving DecidableEq, Repr

/-- The files that the workers share, apart from the lock file. -/
structure Shared where
  queue : Text
  testId : Option Nat
  pops : List Pop

/-- How `pop` ends: with status 1, 2, or 0 and a row. -/
inductive Result
  | busy
  | exhausted
  | popped (row : Pop)
deriving DecidableEq, Repr

/-- Where a worker is, named by what it has done last. -/
inductive Location
  | start
  | locked
  | read (LINE : Text)
  | rewriting (LINE rest : Text)
  | removed (LINE : Text)
  | numbered (LINE : Text)
  | counted (row : Pop)
  | stored (row : Pop)
  | leaving (result : Result)
  | returned (result : Result)
  | running (row : Pop)
  | ended
  | interrupted
deriving DecidableEq, Repr

def code : Location → Cmd Shared Location
  | .start => .create .locked (.returned .busy)
  | .locked => .act fun x => (.read (firstField ((lines x.queue).headD [])), x)
  | .read LINE => .act fun x =>
      if LINE ≠ [] then (.rewriting LINE (deleteFirst x.queue), x) else (.leaving .exhausted, x)
  | .rewriting LINE rest => .act fun x => (.removed LINE, { x with queue := rest })
  | .removed LINE => .act fun x => (.numbered LINE, { x with testId := some (x.testId.getD 0) })
  | .numbered LINE => .act fun x => (.counted ⟨x.testId.getD 0 + 1, LINE⟩, x)
  | .counted row => .act fun x => (.stored row, { x with testId := some row.id })
  | .stored row => .act fun x => (.leaving (.popped row), { x with pops := x.pops ++ [row] })
  | .leaving result => .remove (.returned result)
  -- `main` from here on
  | .returned .busy => .act fun x => (.start, x)
  | .returned .exhausted => .act fun x => (.ended, x)
  | .returned (.popped row) => .act fun x => (.running row, x)
  | .running _ => .act fun x => (.start, x)
  | .ended | .interrupted => .halt

/-- The critical section of `pop`. -/
def inside : Location → Bool
  | .locked | .read _ | .rewriting _ _ | .removed _ | .numbered _ | .counted _ | .stored _ | .leaving _ => true
  | _ => false

def loop : Program Shared Location := ⟨code, inside, .interrupted⟩

/-- The workers are about to start; there is neither a lock file nor a file with the test id. -/
def start (ω : Type) (queue : Text) : State ω Shared Location := ⟨false, ⟨queue, none, []⟩, fun _ => .start⟩

theorem create_cases {l won lost : Location} (h : code l = .create won lost) :
    l = .start ∧ won = .locked ∧ lost = .returned .busy := by
  cases l with
  | start =>
    cases h
    exact ⟨rfl, rfl, rfl⟩
  | returned result => cases result <;> cases h
  | _ => cases h

theorem remove_cases {l after : Location} (h : code l = .remove after) :
    ∃ result, l = .leaving result ∧ after = .returned result := by
  cases l with
  | leaving result =>
    cases h
    exact ⟨result, rfl, rfl⟩
  | returned result => cases result <;> cases h
  | _ => cases h

theorem loop_disciplined : loop.Disciplined where
  create h := by
    obtain ⟨rfl, rfl, rfl⟩ := create_cases h
    exact ⟨rfl, rfl, rfl⟩
  act {l _} h x := by
    cases l with
    | read LINE =>
      cases h
      dsimp only
      split <;> rfl
    | returned result => cases result <;> cases h <;> rfl
    | _ => cases h <;> rfl
  frame {l _} h hout x := by
    cases l with
    | returned result => cases result <;> cases h <;> rfl
    | running row =>
      cases h
      rfl
    | start => cases h
    | ended => cases h
    | interrupted => cases h
    | _ => cases hout
  remove h := by
    obtain ⟨result, rfl, rfl⟩ := remove_cases h
    exact ⟨rfl, rfl⟩
  interrupted := rfl

end Parallels

end Atf
