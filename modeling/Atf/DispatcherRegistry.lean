import Atf.DispatcherPools
import Mathlib.Data.Set.Insert

/-!
# The pools as one registry (`event_dispatcher.lua`)

What the dispatcher is for, without its pools: a connection and an event have at most one expectation, and
what is raised on a connection is for an expectation whose event matches, of the highest level that has one
(`Selects`). As long as no event changes its level while it is registered the pools are such a registry in
every run, and the order in which `pairs` visits them is the only thing that is left open.
-/

namespace Atf
open Lua

/-- `handler` is the expectation of a connection and an event. -/
structure Registry (D : Type) where
  events : Nat → EventObject D
  connections : Set Nat
  handler : Table (Nat × Nat) Nat

namespace Registry
variable {D : Type}

def new (events : Nat → EventObject D) : Registry D := ⟨events, ∅, .empty⟩

def level (self : Registry D) (event : Nat) : Nat := (self.events event).level

def step (self : Registry D) : DispatcherCall D → Registry D
  | .event event object => { self with events := Function.update self.events event object }
  | .addConnection connection =>
    { self with
      connections := insert connection self.connections
      handler := fun k => if k.1 = connection then none else self.handler k }
  | .addEvent connection event exp =>
    if self.level event < 4 then { self with handler := self.handler.set (connection, event) exp } else self
  | .removeEvent connection event => { self with handler := self.handler.erase (connection, event) }
  | .clearEvents => { self with handler := .empty }
  | .expectation .. | .raiseEvent .. | .raisePredefined .. | .finish .. => self

/-- A registered event is not given another level. -/
def KeepsLevel (self : Registry D) : DispatcherCall D → Prop
  | .event event object => object.level = self.level event ∨ ∀ c, self.handler (c, event) = none
  | _ => True

/-- An expectation that may be given what is raised; only the events of level 0 are for frames. -/
structure Candidate (self : Registry D) (isFrame : Bool) (connection : Nat) (data : D) (event exp : Nat) : Prop where
  handler : self.handler (connection, event) = some exp
  matchesData : (self.events event).matchesData data = true
  level : self.level event = 0 ↔ isFrame = true

def Selects (self : Registry D) (isFrame : Bool) (connection : Nat) (data : D) : Option Nat → Prop
  | none => ∀ event exp, ¬ self.Candidate isFrame connection data event exp
  | some exp => ∃ event, self.Candidate isFrame connection data event exp ∧
    ∀ event' exp', self.Candidate isFrame connection data event' exp' → self.level event' ≤ self.level event

end Registry

/-! ### What the operations do to the pools -/

namespace Dispatcher
variable {D : Type} {self self' : Dispatcher} {connection event : Nat}

def lookup (self : Dispatcher) (l : Fin 4) (c e : Nat) : Option Nat := ((self.pools l).get c).bind (·.get e)

def Connected (self : Dispatcher) (l : Fin 4) (c : Nat) : Prop := ∃ pool, (self.pools l).get c = some pool

theorem poolOf_eq_ok {raised : String} {l : Fin 4} {pool : Pool} :
    self.poolOf raised connection l = .ok pool ↔ (self.pools l).get connection = some pool := by
  unfold poolOf
  split <;> simp_all

theorem poolOf_lookup {raised : String} {l : Fin 4} {pool : Pool} (h : self.poolOf raised connection l = .ok pool)
    (e : Nat) :
    self.lookup l connection e = pool.get e := by
  rw [lookup, poolOf_eq_ok.mp h, Option.bind_some]

theorem not_connected {l : Fin 4} (h : ¬ self.Connected l connection) (raised : String) :
    self.poolOf raised connection l = .error raised := by
  unfold poolOf
  split
  · rename_i pool hpool
    exact absurd ⟨pool, hpool⟩ h
  · rfl

theorem addConnection_lookup (l : Fin 4) (c e : Nat) :
    (self.AddConnection connection).lookup l c e = if c = connection then none else self.lookup l c e := by
  simp only [lookup, AddConnection, Entries.get_set]
  split <;> rfl

theorem addConnection_connected {l : Fin 4} {c : Nat} :
    (self.AddConnection connection).Connected l c ↔ c = connection ∨ self.Connected l c := by
  simp only [Connected, AddConnection, Entries.get_set]
  split <;> simp_all

theorem setPool_get (l : Fin 4) (pool : Pool) (l' : Fin 4) (c : Nat) :
    ((self.setPool connection l pool).pools l').get c =
      if l' = l ∧ c = connection then some pool else (self.pools l').get c := by
  show ((Function.update self.pools l ((self.pools l).set connection pool)) l').get c = _
  by_cases hl : l' = l
  · subst hl
    rw [Function.update_self, Entries.get_set]
    simp
  · rw [Function.update_of_ne hl]
    simp [hl]

theorem setPool_lookup (l : Fin 4) (pool : Pool) (l' : Fin 4) (c e : Nat) :
    (self.setPool connection l pool).lookup l' c e =
      if l' = l ∧ c = connection then pool.get e else self.lookup l' c e := by
  rw [lookup, setPool_get]
  split <;> rfl

theorem setPool_connected {l : Fin 4} {pool : Pool} (h : self.Connected l connection) {l' : Fin 4} {c : Nat} :
    (self.setPool connection l pool).Connected l' c ↔ self.Connected l' c := by
  unfold Connected
  rw [setPool_get]
  split
  · rename_i heq
    obtain ⟨rfl, rfl⟩ := heq
    exact iff_of_true ⟨pool, rfl⟩ h
  · exact .rfl

theorem removeFrom_eq_ok {l : Fin 4} (h : self.removeFrom connection event l = .ok self') :
    self.Connected l connection ∧ (∀ l' c, self'.Connected l' c ↔ self.Connected l' c) ∧ ∀ l' c e,
      self'.lookup l' c e =
        if l' = l ∧ c = connection ∧ e = event then none else self.lookup l' c e := by
  obtain ⟨pool, hpool, h⟩ := bind_eq_ok.mp h
  cases h
  have hconn : self.Connected l connection := ⟨pool, poolOf_eq_ok.mp hpool⟩
  refine ⟨hconn, fun l' c => setPool_connected hconn, fun l' c e => ?_⟩
  rw [setPool_lookup, Entries.get_erase]
  by_cases hlc : l' = l ∧ c = connection
  · obtain ⟨rfl, rfl⟩ := hlc
    simp [poolOf_lookup hpool]
  · rw [if_neg hlc, if_neg fun h => hlc ⟨h.1, h.2.1⟩]

theorem foldlM_removeFrom {levels : List (Fin 4)}
    (h : levels.foldlM (fun (self : Dispatcher) l => self.removeFrom connection event l) self = .ok self') :
    (∀ l ∈ levels, self.Connected l connection) ∧ (∀ l' c, self'.Connected l' c ↔ self.Connected l' c) ∧
      (∀ l' ∈ levels, self'.lookup l' connection event = none) ∧
      ∀ l' c e, self'.lookup l' c e = none ∧ c = connection ∧ e = event ∨ self'.lookup l' c e = self.lookup l' c e := by
  induction levels generalizing self with
  | nil =>
    cases h
    exact ⟨nofun, fun _ _ => .rfl, nofun, fun _ _ _ => .inr rfl⟩
  | cons l levels ih =>
    rw [List.foldlM_cons] at h
    obtain ⟨self₁, h₁, h⟩ := bind_eq_ok.mp h
    obtain ⟨hconn, hkeep, hlookup⟩ := removeFrom_eq_ok h₁
    obtain ⟨hconn', hkeep', hgone, hrest⟩ := ih h
    refine ⟨?_, fun l' c => (hkeep' l' c).trans (hkeep l' c), ?_, fun l' c e => ?_⟩
    · rw [List.forall_mem_cons]
      exact ⟨hconn, fun l' hl' => (hkeep l' connection).mp (hconn' l' hl')⟩
    · rw [List.forall_mem_cons]
      refine ⟨?_, hgone⟩
      rcases hrest l connection event with ⟨hnone, -⟩ | hsame
      · exact hnone
      · rw [hsame, hlookup, if_pos ⟨rfl, rfl, rfl⟩]
    · rcases hrest l' c e with hnone | hsame
      · exact .inl hnone
      · rw [hsame, hlookup]
        split
        · rename_i hlce
          exact .inl ⟨rfl, hlce.2⟩
        · exact .inr rfl

theorem removeEvent_eq_ok (h : self.RemoveEvent connection event = .ok self') :
    (∀ l, self.Connected l connection) ∧ (∀ l' c, self'.Connected l' c ↔ self.Connected l' c) ∧
      ∀ l' c e, self'.lookup l' c e = if (c, e) = (connection, event) then none else self.lookup l' c e := by
  obtain ⟨hconn, hkeep, hgone, hrest⟩ := foldlM_removeFrom h
  have hall : ∀ l : Fin 4, l ∈ ([3, 2, 1, 0] : List (Fin 4)) := by decide
  refine ⟨fun l => hconn l (hall l), hkeep, fun l' c e => ?_⟩
  split
  · rename_i hce
    obtain ⟨rfl, rfl⟩ := Prod.mk.inj hce
    exact hgone l' (hall l')
  · rename_i hce
    rcases hrest l' c e with hnone | hsame
    · exact absurd (Prod.ext hnone.2.1 hnone.2.2) hce
    · exact hsame

theorem addEvent_eq_ok {level exp : Nat} (h : self.AddEvent connection event level exp = .ok self') :
    (∀ l' c, self'.Connected l' c ↔ self.Connected l' c) ∧
      (∀ l' : Fin 4, l'.val = level → self.Connected l' connection) ∧ ∀ l' c e, self'.lookup l' c e =
        if l'.val = level ∧ (c, e) = (connection, event) then some exp else self.lookup l' c e := by
  unfold AddEvent at h
  split at h
  · rename_i hlevel
    obtain ⟨pool, hpool, h⟩ := bind_eq_ok.mp h
    cases h
    have hconn : self.Connected ⟨level, hlevel⟩ connection := ⟨pool, poolOf_eq_ok.mp hpool⟩
    refine ⟨fun l' c => setPool_connected hconn, ?_, fun l' c e => ?_⟩
    · intro l' hl'
      rwa [show l' = ⟨level, hlevel⟩ from Fin.ext hl']
    · rw [setPool_lookup, Entries.get_set]
      by_cases hlc : l' = ⟨level, hlevel⟩ ∧ c = connection
      · obtain ⟨rfl, rfl⟩ := hlc
        simp [poolOf_lookup hpool]
      · rw [if_neg hlc, if_neg fun h => hlc ⟨Fin.ext h.1, congrArg Prod.fst h.2⟩]
  · rename_i hlevel
    cases h
    refine ⟨fun _ _ => .rfl, fun l' hl' => absurd l'.isLt (by omega), fun l' c e => ?_⟩
    rw [if_neg]
    rintro ⟨hl, -⟩
    exact hlevel (hl ▸ l'.isLt)

theorem addEvent_total (h : ∀ l, self.Connected l connection) (event level exp : Nat) :
    ∃ d, self.AddEvent connection event level exp = .ok d := by
  unfold AddEvent
  split
  · rename_i hlevel
    obtain ⟨pool, hpool⟩ := h ⟨level, hlevel⟩
    exact ⟨_, bind_eq_ok.mpr ⟨pool, poolOf_eq_ok.mpr hpool, rfl⟩⟩
  · exact ⟨self, rfl⟩

theorem clearEvents_lookup (l : Fin 4) (c e : Nat) : self.ClearEvents.lookup l c e = none := by
  simp only [lookup, ClearEvents, Entries.get_map]
  cases (self.pools l).get c <;> rfl

theorem clearEvents_connected {l : Fin 4} {c : Nat} : self.ClearEvents.Connected l c ↔ self.Connected l c := by
  simp only [Connected, ClearEvents, Entries.get_map, Option.map_eq_some_iff]
  constructor
  · rintro ⟨_, pool, hpool, -⟩
    exact ⟨pool, hpool⟩
  · rintro ⟨pool, hpool⟩
    exact ⟨_, pool, hpool, rfl⟩

/-! ### What the pools return -/

theorem mem_levelsFor {isFrame : Bool} {l : Fin 4} : l ∈ levelsFor isFrame ↔ (l.val = 0 ↔ isFrame = true) := by
  cases isFrame <;> revert l <;> decide

theorem levelsFor_sorted (isFrame : Bool) : (levelsFor isFrame).Pairwise (fun l l' => l'.val < l.val) := by
  cases isFrame <;> decide

theorem firstOf_eq_none {f : Fin 4 → LuaM (Option Nat)} {levels : List (Fin 4)} :
    firstOf f levels = .ok none ↔ ∀ l ∈ levels, f l = .ok none := by
  induction levels with
  | nil => simp [firstOf]
  | cons l levels ih =>
    rw [List.forall_mem_cons, ← ih, firstOf, bind_eq_ok]
    constructor
    · rintro ⟨o, ho, h⟩
      split at h
      · cases h
      · exact ⟨ho, h⟩
    · rintro ⟨hl, h⟩
      exact ⟨none, hl, h⟩

theorem firstOf_eq_some {f : Fin 4 → LuaM (Option Nat)} {levels : List (Fin 4)} {exp : Nat} :
    firstOf f levels = .ok (some exp) ↔
      ∃ pre l post, levels = pre ++ l :: post ∧ (∀ l' ∈ pre, f l' = .ok none) ∧ f l = .ok (some exp) := by
  induction levels with
  | nil => simp [firstOf]
  | cons l levels ih =>
    rw [firstOf, bind_eq_ok]
    constructor
    · rintro ⟨o, ho, h⟩
      split at h
      · cases h
        exact ⟨[], l, levels, rfl, nofun, ho⟩
      · obtain ⟨pre, l', post, rfl, hpre, hl'⟩ := ih.mp h
        refine ⟨l :: pre, l', post, rfl, ?_, hl'⟩
        exact List.forall_mem_cons.mpr ⟨ho, hpre⟩
    · rintro ⟨pre, l', post, heq, hpre, hl'⟩
      rcases pre with _ | ⟨l₁, pre⟩
      · cases heq
        exact ⟨some exp, hl', rfl⟩
      · obtain ⟨rfl, htail⟩ := List.cons.inj heq
        obtain ⟨hl₁, hpre⟩ := List.forall_mem_cons.mp hpre
        exact ⟨none, hl₁, ih.mpr ⟨pre, l', post, htail, hpre, hl'⟩⟩

section Pool
variable {order : Pairs Nat Nat} {events : Nat → EventObject D} {data : D} {l : Fin 4}

theorem findInPool_eq_none : self.findInPool order events connection data l = .ok none ↔
    self.Connected l connection ∧
      ∀ e x, self.lookup l connection e = some x → (events e).matchesData data = false := by
  constructor
  · intro h
    obtain ⟨pool, hpool, h⟩ := bind_eq_ok.mp h
    refine ⟨⟨pool, poolOf_eq_ok.mp hpool⟩, fun e x hx => ?_⟩
    rw [poolOf_lookup hpool, Entries.get_iff, ← order.mem_visit] at hx
    have hnone := List.find?_eq_none.mp (Option.map_eq_none_iff.mp (Except.ok.inj h)) (e, x) hx
    exact Bool.eq_false_iff.mpr hnone
  · rintro ⟨⟨pool, hpool⟩, hno⟩
    have hok : self.poolOf pairsError connection l = .ok pool := poolOf_eq_ok.mpr hpool
    refine bind_eq_ok.mpr ⟨pool, hok, congrArg Except.ok ?_⟩
    rw [Option.map_eq_none_iff, List.find?_eq_none]
    rintro ⟨e, x⟩ hp
    rw [order.mem_visit, ← Entries.get_iff, ← poolOf_lookup hok] at hp
    exact Bool.eq_false_iff.mp (hno e x hp)

theorem findInPool_eq_some {exp : Nat} (h : self.findInPool order events connection data l = .ok (some exp)) :
    ∃ e, self.lookup l connection e = some exp ∧ (events e).matchesData data = true := by
  obtain ⟨pool, hpool, h⟩ := bind_eq_ok.mp h
  obtain ⟨⟨e, x⟩, hfind, rfl⟩ := Option.map_eq_some_iff.mp (Except.ok.inj h)
  have hmatch := List.find?_some hfind
  refine ⟨e, ?_, hmatch⟩
  rw [poolOf_lookup hpool, Entries.get_iff, ← order.mem_visit]
  exact List.mem_of_find?_eq_some hfind

/-- Any match can be the first that `pairs` visits. -/
theorem findInPool_first {e exp : Nat} (h : self.lookup l connection e = some exp)
    (hmatch : (events e).matchesData data = true) :
    self.findInPool (.first (e, exp)) events connection data l = .ok (some exp) := by
  obtain ⟨pool, hpool, hget⟩ := Option.bind_eq_some_iff.mp h
  refine bind_eq_ok.mpr ⟨pool, poolOf_eq_ok.mpr hpool, congrArg Except.ok ?_⟩
  rw [Pairs.visit_first (Entries.get_iff.mp hget), List.find?_cons, hmatch]
  rfl

end Pool

end Dispatcher

end Atf
