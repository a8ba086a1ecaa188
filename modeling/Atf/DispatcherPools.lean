import Atf.EventDispatcher
import Atf.Lib.Entries
import Atf.Lib.Run

/-!
# The pools of the dispatcher (`event_dispatcher.lua`)

`_pool0` to `_pool3` hold the events of one level each, for every connection that was added; `GetHandler`
looks an event up, `FindHandler` visits the pools with `pairs`. The functions of `Do`, and the handlers of
`OnPreEvent` and `OnPostEvent`, may call the dispatcher again. So a run is a sequence of calls of which
`finish` ends the actions of the innermost occurrence: the calls an action makes stand before it, those of
the two handlers stand before `raiseEvent` and behind `finish`. A call that raises ends the run.
-/

namespace Atf
open Lua

/-- `matches` and `level` of an event; the levels above 3 stand for every other value. -/
structure EventObject (D : Type) where
  level : Nat
  matchesData : D → Bool

/-- The expectations registered for a connection, by their events. -/
abbrev Pool := Entries Nat Nat

structure Dispatcher where
  pools : Fin 4 → Entries Nat Pool

namespace Dispatcher
variable {D : Type}

def new : Dispatcher := ⟨fun _ => .empty⟩

/-- What is raised for a connection that was not added, where its pool is indexed and where it is visited. -/
def indexError : String := "attempt to index field '?' (a nil value)"
def pairsError : String := "bad argument #1 to 'pairs' (table expected, got nil)"

def poolOf (self : Dispatcher) (raised : String) (connection : Nat) (l : Fin 4) : LuaM Pool :=
  match (self.pools l).get connection with
  | some pool => .ok pool
  | none => .error raised

def setPool (self : Dispatcher) (connection : Nat) (l : Fin 4) (pool : Pool) : Dispatcher :=
  ⟨Function.update self.pools l ((self.pools l).set connection pool)⟩

/-- `f l₁ or f l₂ or …` -/
def firstOf (f : Fin 4 → LuaM (Option Nat)) : List (Fin 4) → LuaM (Option Nat)
  | [] => .ok none
  | l :: levels => do
    match ← f l with
    | some exp => return some exp
    | none => firstOf f levels

def GetHandler (self : Dispatcher) (connection event : Nat) : LuaM (Option Nat) :=
  firstOf (fun l => return (← self.poolOf indexError connection l).get event) [3, 2, 1, 0]

def findInPool (self : Dispatcher) (order : Pairs Nat Nat) (events : Nat → EventObject D) (connection : Nat)
    (data : D) (l : Fin 4) : LuaM (Option Nat) :=
  return ((order.visit (← self.poolOf pairsError connection l)).find? fun p =>
    (events p.1).matchesData data).map Prod.snd

/-- `isFrame` is `data._technical and data._technical.isFrame`. -/
def FindHandler (self : Dispatcher) (isFrame : D → Bool) (order : Pairs Nat Nat) (events : Nat → EventObject D)
    (connection : Nat) (data : D) : LuaM (Option Nat) :=
  if isFrame data then self.findInPool order events connection data 0
  else firstOf (self.findInPool order events connection data) [3, 2, 1]

/-- The pools that `FindHandler` visits, in its order. -/
def levelsFor (isFrame : Bool) : List (Fin 4) := if isFrame then [0] else [3, 2, 1]

def AddConnection (self : Dispatcher) (connection : Nat) : Dispatcher :=
  ⟨fun l => (self.pools l).set connection .empty⟩

def AddEvent (self : Dispatcher) (connection event level exp : Nat) : LuaM Dispatcher :=
  if h : level < 4 then do
    let pool ← self.poolOf indexError connection ⟨level, h⟩
    return self.setPool connection ⟨level, h⟩ (pool.set event exp)
  else .ok self

def removeFrom (self : Dispatcher) (connection event : Nat) (l : Fin 4) : LuaM Dispatcher := do
  let pool ← self.poolOf indexError connection l
  return self.setPool connection l (pool.erase event)

def RemoveEvent (self : Dispatcher) (connection event : Nat) : LuaM Dispatcher :=
  [3, 2, 1, 0].foldlM (fun (self : Dispatcher) l => self.removeFrom connection event l) self

def ClearEvents (self : Dispatcher) : Dispatcher := ⟨fun l => (self.pools l).map fun _ => .empty⟩

/-- The expectations that `validateAll` visits, in its order. -/
def visited (self : Dispatcher) (connections : Pairs Nat Pool) (order : Pairs Nat Nat) : List Nat :=
  [3, 2, 1, 0].flatMap fun l =>
    (connections.visit (self.pools l)).flatMap fun p => (order.visit p.2).map Prod.snd

end Dispatcher

/-! ### Runs -/

/-- The dispatcher with the events and the expectations; `running` are the expectations whose actions have
not returned, the innermost first. -/
structure DispatcherState (D : Type) where
  dispatcher : Dispatcher
  events : Nat → EventObject D
  exps : Nat → Expectation D
  running : List Nat

/-- `raisePredefined` is the function given to `OnConnected` or to `OnDisconnected`. An event and an
expectation are tables: `event` assigns the fields of the one, and `expectation` those of the other but for
`occurences`, which no other function assigns. -/
inductive DispatcherCall (D : Type)
  | event (event : Nat) (object : EventObject D)
  | expectation (exp : Nat) (object : Expectation D)
  | addConnection (connection : Nat)
  | addEvent (connection event exp : Nat)
  | removeEvent (connection event : Nat)
  | clearEvents
  | raiseEvent (order : Pairs Nat Nat) (connection : Nat) (data : D)
  | raisePredefined (connection event : Nat)
  | finish (connections : Pairs Nat Pool) (order : Pairs Nat Nat) (timestamp : Int)

def DispatcherCall.raises {D : Type} : DispatcherCall D → Bool
  | .raiseEvent .. | .raisePredefined .. => true
  | _ => false

namespace DispatcherState
variable {D : Type}

def new (events : Nat → EventObject D) (exps : Nat → Expectation D) : DispatcherState D :=
  ⟨.new, events, exps, []⟩

def setExp (self : DispatcherState D) (exp : Nat) (object : Expectation D) : DispatcherState D :=
  { self with exps := Function.update self.exps exp object }

/-- The occurrence up to the call of `Action`. -/
def occur (self : DispatcherState D) (checkAllValidations : Option Bool) (data : Option D) :
    Option Nat → DispatcherState D
  | none => self
  | some exp =>
    { self.setExp exp ((self.exps exp).occur checkAllValidations data).1 with running := exp :: self.running }

def validateAll (self : DispatcherState D) (checkAllValidations : Option Bool) (connections : Pairs Nat Pool)
    (order : Pairs Nat Nat) (timestamp : Int) : DispatcherState D :=
  (self.dispatcher.visited connections order).foldl
    (fun self exp => self.setExp exp ((self.exps exp).validate checkAllValidations timestamp)) self

/-- The expectation that a call is delivered to. -/
def delivered (isFrame : D → Bool) (self : DispatcherState D) : DispatcherCall D → LuaM (Option Nat)
  | .raiseEvent order connection data => self.dispatcher.FindHandler isFrame order self.events connection data
  | .raisePredefined connection event => self.dispatcher.GetHandler connection event
  | _ => .ok none

def step (isFrame : D → Bool) (checkAllValidations : Option Bool) (self : DispatcherState D) :
    DispatcherCall D → LuaM (DispatcherState D)
  | .event event object => .ok { self with events := Function.update self.events event object }
  | .expectation exp object =>
    .ok (self.setExp exp { object with occurences := (self.exps exp).occurences })
  | .addConnection connection => .ok { self with dispatcher := self.dispatcher.AddConnection connection }
  | .addEvent connection event exp => do
    let dispatcher ← self.dispatcher.AddEvent connection event (self.events event).level exp
    return { self with dispatcher }
  | .removeEvent connection event => do
    let dispatcher ← self.dispatcher.RemoveEvent connection event
    return { self with dispatcher }
  | .clearEvents => .ok { self with dispatcher := self.dispatcher.ClearEvents }
  | .raiseEvent order connection data => do
    let exp ← self.delivered isFrame (.raiseEvent order connection data)
    return self.occur checkAllValidations (some data) exp
  | .raisePredefined connection event => do
    let exp ← self.delivered isFrame (.raisePredefined connection event)
    return self.occur checkAllValidations none exp
  | .finish connections order timestamp =>
    match self.running with
    | [] => .ok self
    | _ :: running =>
      .ok ({ self with running }.validateAll checkAllValidations connections order timestamp)

end DispatcherState

end Atf
