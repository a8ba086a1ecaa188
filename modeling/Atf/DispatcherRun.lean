import Atf.DispatcherRegistry
import Atf.Verdict
import Mathlib.Data.List.Count

/-!
# Runs of the dispatcher (`event_dispatcher.lua`)

`Refines` connects the pools with the registry and is kept by every call. From it: what `FindHandler` can
return is what the registry selects, every counter `occurences` is the number of events that were selected
for its expectation, and `validateAll` treats every registered expectation once, in whatever order.
-/

namespace Atf
open Lua

/-- The pools of the state are the registry, each expectation in the pool of its event's level. -/
structure Refines {D : Type} (s : DispatcherState D) (r : Registry D) : Prop where
  events : s.events = r.events
  connected : ∀ l c, s.dispatcher.Connected l c ↔ c ∈ r.connections
  lookup : ∀ l c e x, s.dispatcher.lookup l c e = some x ↔ r.handler (c, e) = some x ∧ r.level e = l.val
  levels : ∀ c e x, r.handler (c, e) = some x → r.level e < 4

namespace Refines
variable {D : Type} {s s' : DispatcherState D} {r : Registry D} {isFrame : D → Bool}
  {checkAllValidations : Option Bool}

theorem new (events : Nat → EventObject D) (exps : Nat → Expectation D) : Refines (.new events exps) (.new events) where
  events := rfl
  connected l c := by
    simp only [Dispatcher.Connected, DispatcherState.new, Dispatcher.new, Entries.get_empty, reduceCtorEq, exists_false]
    exact iff_of_false id (Set.notMem_empty c)
  lookup l c e x := by simp [Dispatcher.lookup, DispatcherState.new, Dispatcher.new, Registry.new]
  levels c e x := by simp [Registry.new]

/-- A state with the same pools and the same events. -/
theorem congr (h : Refines s r) (hd : s'.dispatcher = s.dispatcher) (he : s'.events = s.events) : Refines s' r where
  events := he.trans h.events
  connected := by rw [hd]; exact h.connected
  lookup := by rw [hd]; exact h.lookup
  levels := h.levels

theorem occur (h : Refines s r) (data : Option D) (exp : Option Nat) :
    Refines (s.occur checkAllValidations data exp) r := by
  rcases exp with _ | exp
  · exact h
  · exact h.congr rfl rfl

theorem foldl_setExp (exps : List Nat) (f : Expectation D → Expectation D) (s : DispatcherState D) :
    (exps.foldl (fun s exp => s.setExp exp (f (s.exps exp))) s).dispatcher = s.dispatcher ∧
      (exps.foldl (fun s exp => s.setExp exp (f (s.exps exp))) s).events = s.events := by
  induction exps generalizing s with
  | nil => exact ⟨rfl, rfl⟩
  | cons exp exps ih => exact ih _

theorem setEvent (h : Refines s r) {event : Nat} {object : EventObject D}
    (hk : r.KeepsLevel (.event event object)) :
    Refines { s with events := Function.update s.events event object } (r.step (.event event object)) := by
  -- a registered event has the level it had
  have hlevel : ∀ (c e x : Nat), r.handler (c, e) = some x → (r.step (.event event object)).level e = r.level e := by
    intro c e x hx
    show (Function.update r.events event object e).level = (r.events e).level
    by_cases he : e = event
    · subst he
      rw [Function.update_self]
      rcases hk with hk | hk
      · exact hk
      · rw [hk c] at hx
        cases hx
    · rw [Function.update_of_ne he]
  refine ⟨?_, h.connected, fun l c e x => ?_, fun c e x hx => ?_⟩
  · rw [h.events]
    rfl
  · rw [h.lookup]
    exact and_congr_right fun hx => by rw [hlevel c e x hx]
  · rw [hlevel c e x hx]
    exact h.levels c e x hx

theorem addConnection (h : Refines s r) (connection : Nat) :
    Refines { s with dispatcher := s.dispatcher.AddConnection connection } (r.step (.addConnection connection)) := by
  refine ⟨h.events, fun l c => ?_, fun l c e x => ?_, fun c e x hx => ?_⟩
  · rw [Dispatcher.addConnection_connected, h.connected]
    exact Set.mem_insert_iff.symm
  · rw [Dispatcher.addConnection_lookup]
    by_cases hc : c = connection
    · simp [Registry.step, hc]
    · simpa [Registry.step, Registry.level, hc] using h.lookup l c e x
  · by_cases hc : c = connection
    · simp [Registry.step, hc] at hx
    · exact h.levels c e x (by simpa [Registry.step, hc] using hx)

theorem addEvent (h : Refines s r) {connection event exp : Nat} {d : Dispatcher}
    (hd : s.dispatcher.AddEvent connection event (s.events event).level exp = .ok d) :
    Refines { s with dispatcher := d } (r.step (.addEvent connection event exp)) := by
  obtain ⟨hkeep, -, hlookup⟩ := Dispatcher.addEvent_eq_ok hd
  rw [show (s.events event).level = r.level event by rw [h.events]; rfl] at hlookup
  have hconn : ∀ l c, d.Connected l c ↔ c ∈ r.connections := fun l c => (hkeep l c).trans (h.connected l c)
  simp only [Registry.step]
  split
  · rename_i h4
    refine ⟨h.events, hconn, fun l c e x => ?_, fun c e x hx => ?_⟩
    · show d.lookup l c e = some x ↔ r.handler.set (connection, event) exp (c, e) = some x ∧ r.level e = l.val
      rw [hlookup, Table.set_apply]
      by_cases hce : (c, e) = (connection, event)
      · rw [if_pos hce]
        obtain ⟨rfl, rfl⟩ := Prod.mk.inj hce
        by_cases hl : l.val = r.level e
        · rw [if_pos ⟨hl, rfl⟩, hl, and_iff_left rfl]
        · -- nothing is registered under the event in a pool of another level
          rw [if_neg fun hh => hl hh.1, h.lookup]
          exact iff_of_false (fun hh => hl hh.2.symm) fun hh => hl hh.2.symm
      · rw [if_neg fun hh => hce hh.2, if_neg hce]
        exact h.lookup l c e x
    · by_cases hce : (c, e) = (connection, event)
      · obtain ⟨rfl, rfl⟩ := Prod.mk.inj hce
        exact h4
      · exact h.levels c e x ((Table.set_of_ne _ _ hce).symm.trans hx)
  · rename_i h4
    refine ⟨h.events, hconn, fun l c e x => ?_, h.levels⟩
    rw [hlookup, if_neg fun hh : l.val = r.level event ∧ _ => h4 (hh.1 ▸ l.isLt)]
    exact h.lookup l c e x

theorem removeEvent (h : Refines s r) {connection event : Nat} {d : Dispatcher}
    (hd : s.dispatcher.RemoveEvent connection event = .ok d) :
    Refines { s with dispatcher := d } (r.step (.removeEvent connection event)) := by
  obtain ⟨-, hkeep, hlookup⟩ := Dispatcher.removeEvent_eq_ok hd
  refine ⟨h.events, fun l c => (hkeep l c).trans (h.connected l c), fun l c e x => ?_, fun c e x hx => ?_⟩
  · show d.lookup l c e = some x ↔ r.handler.erase (connection, event) (c, e) = some x ∧ r.level e = l.val
    rw [hlookup, Table.erase_apply]
    split
    · simp
    · exact h.lookup l c e x
  · by_cases hce : (c, e) = (connection, event)
    · rw [hce] at hx
      exact absurd ((Table.erase_self r.handler _).symm.trans hx) (by simp)
    · exact h.levels c e x ((Table.erase_of_ne _ hce).symm.trans hx)

theorem clearEvents (h : Refines s r) :
    Refines { s with dispatcher := s.dispatcher.ClearEvents } (r.step .clearEvents) := by
  refine ⟨h.events, fun l c => ?_, fun l c e x => ?_, fun c e x hx => ?_⟩
  · exact Dispatcher.clearEvents_connected.trans (h.connected l c)
  · rw [Dispatcher.clearEvents_lookup]
    simp [Registry.step]
  · simp [Registry.step] at hx

/-- Every call keeps the registry. -/
theorem step (h : Refines s r) {call : DispatcherCall D} (hk : r.KeepsLevel call)
    (hs : s.step isFrame checkAllValidations call = .ok s') : Refines s' (r.step call) := by
  cases call with
  | event event object => cases hs; exact h.setEvent hk
  | expectation exp object => cases hs; exact h.congr rfl rfl
  | addConnection connection => cases hs; exact h.addConnection connection
  | addEvent connection event exp =>
    obtain ⟨d, hd, hs⟩ := bind_eq_ok.mp hs
    cases hs
    exact h.addEvent hd
  | removeEvent connection event =>
    obtain ⟨d, hd, hs⟩ := bind_eq_ok.mp hs
    cases hs
    exact h.removeEvent hd
  | clearEvents => cases hs; exact h.clearEvents
  | raiseEvent | raisePredefined =>
    obtain ⟨exp, -, hs⟩ := bind_eq_ok.mp hs
    cases hs
    exact h.occur _ exp
  | finish connections order timestamp =>
    simp only [DispatcherState.step] at hs
    split at hs <;> cases hs
    · exact h
    · obtain ⟨hd, he⟩ := foldl_setExp _ _ _
      exact h.congr hd he

theorem run (h : Refines s r) {calls : List (DispatcherCall D)}
    (hk : Run.Allows Registry.step Registry.KeepsLevel r calls)
    (hs : calls.foldlM (DispatcherState.step isFrame checkAllValidations) s = .ok s') :
    Refines s' (calls.foldl Registry.step r) := by
  induction calls generalizing s r with
  | nil => cases hs; exact h
  | cons call calls ih =>
    rw [List.foldlM_cons] at hs
    obtain ⟨s₁, hs₁, hs⟩ := bind_eq_ok.mp hs
    exact ih (h.step hk.1 hs₁) hk.2 hs

/-! ### What the pools find -/

section Find
variable {connection : Nat} {data : D}

theorem findHandler_eq (order : Pairs Nat Nat) : s.dispatcher.FindHandler isFrame order s.events connection data =
    Dispatcher.firstOf (s.dispatcher.findInPool order s.events connection data)
      (Dispatcher.levelsFor (isFrame data)) := by
  unfold Dispatcher.FindHandler Dispatcher.levelsFor
  split
  · cases hfind : s.dispatcher.findInPool order s.events connection data 0 with
    | error e => simp [Dispatcher.firstOf, hfind, bind, Except.bind]
    | ok res => cases res <;> simp [Dispatcher.firstOf, hfind, bind, Except.bind, pure, Except.pure]
  · rfl

/-- A candidate is a match in one of these pools. -/
theorem candidate_iff (h : Refines s r) {isFrame : Bool} {e x : Nat} :
    r.Candidate isFrame connection data e x ↔ ∃ l ∈ Dispatcher.levelsFor isFrame, l.val = r.level e ∧
      s.dispatcher.lookup l connection e = some x ∧ (s.events e).matchesData data = true := by
  rw [h.events]
  constructor
  · rintro ⟨hx, hmatch, hlevel⟩
    refine ⟨⟨r.level e, h.levels connection e x hx⟩, Dispatcher.mem_levelsFor.mpr hlevel, rfl, ?_, hmatch⟩
    exact (h.lookup _ _ _ _).mpr ⟨hx, rfl⟩
  · rintro ⟨l, hl, hlevel, hx, hmatch⟩
    refine ⟨((h.lookup _ _ _ _).mp hx).1, hmatch, ?_⟩
    rw [← hlevel]
    exact Dispatcher.mem_levelsFor.mp hl

/-- For some order of `pairs`, this is found. -/
theorem findHandler_iff (h : Refines s r) {res : Option Nat} :
    (∃ order, s.dispatcher.FindHandler isFrame order s.events connection data = .ok res) ↔
      connection ∈ r.connections ∧ r.Selects (isFrame data) connection data res := by
  simp only [findHandler_eq]
  have hsorted := Dispatcher.levelsFor_sorted (isFrame data)
  have hcand : ∀ e x, r.Candidate (isFrame data) connection data e x ↔ ∃ l ∈ Dispatcher.levelsFor (isFrame data),
      l.val = r.level e ∧ s.dispatcher.lookup l connection e = some x ∧ (s.events e).matchesData data = true :=
    fun _ _ => h.candidate_iff
  have hne : Dispatcher.levelsFor (isFrame data) ≠ [] := by unfold Dispatcher.levelsFor; split <;> simp
  generalize Dispatcher.levelsFor (isFrame data) = levels at *
  constructor
  · rintro ⟨order, hfind⟩
    rcases res with _ | x
    · have hnone := Dispatcher.firstOf_eq_none.mp hfind
      obtain ⟨l, hl⟩ := List.exists_mem_of_ne_nil levels hne
      refine ⟨(h.connected l connection).mp (Dispatcher.findInPool_eq_none.mp (hnone l hl)).1, fun e x hc => ?_⟩
      obtain ⟨l', hl', -, hx, hmatch⟩ := (hcand e x).mp hc
      have hno := (Dispatcher.findInPool_eq_none.mp (hnone l' hl')).2 e x hx
      rw [hno] at hmatch
      cases hmatch
    · obtain ⟨pre, l, post, rfl, hpre, hl⟩ := Dispatcher.firstOf_eq_some.mp hfind
      obtain ⟨e, hx, hmatch⟩ := Dispatcher.findInPool_eq_some hl
      have hlevel : r.level e = l.val := ((h.lookup _ _ _ _).mp hx).2
      obtain ⟨pool, hpool, -⟩ := Option.bind_eq_some_iff.mp hx
      refine ⟨(h.connected l connection).mp ⟨pool, hpool⟩, e, (hcand e x).mpr ⟨l, by simp, hlevel.symm, hx, hmatch⟩, ?_⟩
      intro e' x' hc
      obtain ⟨l', hl', hlevel', hx', hmatch'⟩ := (hcand e' x').mp hc
      rw [← hlevel', hlevel]
      -- a pool before that of `e` has no match
      rcases List.mem_append.mp hl' with hin | hin
      · have hno := (Dispatcher.findInPool_eq_none.mp (hpre l' hin)).2 e' x' hx'
        rw [hno] at hmatch'
        cases hmatch'
      · rcases List.mem_cons.mp hin with rfl | hin
        · exact Nat.le_refl _
        · have hpost := (List.pairwise_append.mp hsorted).2.1
          exact Nat.le_of_lt ((List.pairwise_cons.mp hpost).1 l' hin)
  · rintro ⟨hconn, hsel⟩
    rcases res with _ | x
    · refine ⟨.inOrder, Dispatcher.firstOf_eq_none.mpr fun l hl => Dispatcher.findInPool_eq_none.mpr ?_⟩
      refine ⟨(h.connected l connection).mpr hconn, fun e x hx => Bool.eq_false_iff.mpr fun hmatch => ?_⟩
      exact hsel e x ((hcand e x).mpr ⟨l, hl, ((h.lookup _ _ _ _).mp hx).2.symm, hx, hmatch⟩)
    · obtain ⟨e, hc, hmax⟩ := hsel
      obtain ⟨l, hl, hlevel, hx, hmatch⟩ := (hcand e x).mp hc
      obtain ⟨pre, post, rfl⟩ := List.append_of_mem hl
      refine ⟨.first (e, x), Dispatcher.firstOf_eq_some.mpr ⟨pre, l, post, rfl, fun l' hl' => ?_, ?_⟩⟩
      · refine Dispatcher.findInPool_eq_none.mpr ⟨(h.connected l' connection).mpr hconn, fun e' x' hx' => ?_⟩
        refine Bool.eq_false_iff.mpr fun hmatch' => ?_
        have hlevel' := ((h.lookup _ _ _ _).mp hx').2
        have hle := hmax e' x' ((hcand e' x').mpr ⟨l', by simp [hl'], hlevel'.symm, hx', hmatch'⟩)
        have hlt := (List.pairwise_append.mp hsorted).2.2 l' hl' l (by simp)
        omega
      · exact Dispatcher.findInPool_first hx hmatch

theorem getHandler_eq (h : Refines s r) (hconn : connection ∈ r.connections) (event : Nat) :
    s.dispatcher.GetHandler connection event = .ok (r.handler (connection, event)) := by
  have hget : ∀ l,
      (do return (← s.dispatcher.poolOf Dispatcher.indexError connection l).get event : LuaM (Option Nat)) =
      .ok (s.dispatcher.lookup l connection event) := by
    intro l
    obtain ⟨pool, hpool⟩ := (h.connected l connection).mpr hconn
    have hok : s.dispatcher.poolOf Dispatcher.indexError connection l = .ok pool := Dispatcher.poolOf_eq_ok.mpr hpool
    rw [Dispatcher.poolOf_lookup hok, hok]
    rfl
  simp only [Dispatcher.GetHandler, hget]
  cases hx : r.handler (connection, event) with
  | none =>
    refine Dispatcher.firstOf_eq_none.mpr fun l _ => congrArg Except.ok (Option.eq_none_iff_forall_ne_some.mpr ?_)
    intro x hl
    rw [h.lookup, hx] at hl
    cases hl.1
  | some x =>
    have hlevel := h.levels connection event x hx
    have hall : ∀ l : Fin 4, l ∈ ([3, 2, 1, 0] : List (Fin 4)) := by decide
    obtain ⟨pre, post, hsplit⟩ := List.append_of_mem (hall ⟨r.level event, hlevel⟩)
    refine Dispatcher.firstOf_eq_some.mpr
      ⟨pre, _, post, hsplit, fun l hl => congrArg Except.ok ?_, congrArg Except.ok ?_⟩
    · refine Option.eq_none_iff_forall_ne_some.mpr fun x' hx' => ?_
      have heq : l = ⟨r.level event, hlevel⟩ := Fin.ext ((h.lookup _ _ _ _).mp hx').2.symm
      have hnodup : ([3, 2, 1, 0] : List (Fin 4)).Nodup := by decide
      rw [hsplit, List.nodup_append] at hnodup
      exact hnodup.2.2 l hl _ (List.mem_cons_self) heq
    · exact (h.lookup _ _ _ _).mpr ⟨hx, rfl⟩

theorem getHandler_ok (h : Refines s r) {event : Nat} {res : Option Nat}
    (hres : s.dispatcher.GetHandler connection event = .ok res) :
    connection ∈ r.connections ∧ res = r.handler (connection, event) := by
  have hconn : connection ∈ r.connections := by
    by_contra hno
    rw [Dispatcher.GetHandler, Dispatcher.firstOf,
      Dispatcher.not_connected fun hl => hno ((h.connected 3 connection).mp hl)] at hres
    cases hres
  rw [h.getHandler_eq hconn] at hres
  exact ⟨hconn, (Except.ok.inj hres).symm⟩

/-- Every order of `pairs` finds something. -/
theorem findHandler_total (h : Refines s r) (hconn : connection ∈ r.connections) (order : Pairs Nat Nat) :
    ∃ res, s.dispatcher.FindHandler isFrame order s.events connection data = .ok res := by
  rw [findHandler_eq]
  generalize Dispatcher.levelsFor (isFrame data) = levels
  induction levels with
  | nil => exact ⟨none, rfl⟩
  | cons l levels ih =>
    obtain ⟨pool, hpool⟩ := (h.connected l connection).mpr hconn
    obtain ⟨o, ho⟩ : ∃ o, s.dispatcher.findInPool order s.events connection data l = .ok o :=
      ⟨_, bind_eq_ok.mpr ⟨pool, Dispatcher.poolOf_eq_ok.mpr hpool, rfl⟩⟩
    rcases o with _ | x
    · obtain ⟨res, hres⟩ := ih
      exact ⟨res, bind_eq_ok.mpr ⟨none, ho, hres⟩⟩
    · exact ⟨some x, bind_eq_ok.mpr ⟨some x, ho, rfl⟩⟩

theorem findHandler_not_connected (h : Refines s r) (hconn : connection ∉ r.connections) (order : Pairs Nat Nat) :
    s.dispatcher.FindHandler isFrame order s.events connection data = .error Dispatcher.pairsError := by
  have hpool : ∀ l, s.dispatcher.findInPool order s.events connection data l = .error Dispatcher.pairsError := by
    intro l
    rw [Dispatcher.findInPool, Dispatcher.not_connected fun hl => hconn ((h.connected l connection).mp hl)]
    rfl
  unfold Dispatcher.FindHandler
  split
  · exact hpool 0
  · rw [Dispatcher.firstOf, hpool]
    rfl

end Find

end Refines

namespace Registry
variable {D : Type} {r : Registry D} {isFrame : Bool} {connection : Nat} {data : D}

/-- The candidates of the highest level that has one. -/
def Top (r : Registry D) (isFrame : Bool) (connection : Nat) (data : D) (event exp : Nat) : Prop :=
  r.Candidate isFrame connection data event exp ∧
    ∀ event' exp', r.Candidate isFrame connection data event' exp' → r.level event' ≤ r.level event

/-- The calls of a run that are delivered, with the registry each of them finds: the expectations in the
order of their occurrences. -/
inductive Delivers (isFrame : D → Bool) : Registry D → List (DispatcherCall D) → List Nat → Prop
  | nil (r : Registry D) : Delivers isFrame r [] []
  | raiseEvent {r : Registry D} {order connection data res calls exps} :
    r.Selects (isFrame data) connection data res → Delivers isFrame r calls exps →
      Delivers isFrame r (.raiseEvent order connection data :: calls) (res.toList ++ exps)
  | raisePredefined {r : Registry D} {connection event calls exps} :
    Delivers isFrame r calls exps → Delivers isFrame r (.raisePredefined connection event :: calls)
      ((r.handler (connection, event)).toList ++ exps)
  | other {r : Registry D} {call calls exps} : call.raises = false →
    Delivers isFrame (r.step call) calls exps → Delivers isFrame r (call :: calls) exps

end Registry

/-! ### The results about runs -/

namespace DispatcherState

namespace Sample

/-- The two events are for the same data, 0 on level 1 and 1 on level 2. -/
def events (event : Nat) : EventObject Nat := ⟨if event = 0 then 1 else 2, fun data => data = 5⟩

def calls : List (DispatcherCall Nat) :=
  [.addConnection 3, .addEvent 3 0 7, .addEvent 3 1 8, .event 1 ⟨2, fun data => data = 6⟩,
    .event 1 ⟨2, fun data => data = 5⟩, .raiseEvent .inOrder 3 5]

def exps (_ : Nat) : Expectation Nat := .new "" 0

def raised : DispatcherState Nat :=
  match calls.foldlM (step (fun _ => false) none) (new events exps) with
  | .ok s => s
  | .error _ => new events exps

theorem allowed : Run.Allows Registry.step Registry.KeepsLevel (.new events) calls :=
  ⟨trivial, trivial, trivial, .inl rfl, .inl rfl, trivial, trivial⟩

end Sample

variable {D : Type} {isFrame : D → Bool} {checkAllValidations : Option Bool} {events : Nat → EventObject D}
  {exps : Nat → Expectation D} {calls : List (DispatcherCall D)} {s s' : DispatcherState D} {r : Registry D}

/-- In every run the pools find what the registry of the run selects, and nothing else. -/
theorem found_iff_selected
    (hs : calls.foldlM (step isFrame checkAllValidations) (new events exps) = .ok s)
    (hk : Run.Allows Registry.step Registry.KeepsLevel (.new events) calls) (connection : Nat) (data : D)
    (res : Option Nat) :
    (∃ order, s.dispatcher.FindHandler isFrame order s.events connection data = .ok res) ↔
      connection ∈ (calls.foldl Registry.step (.new events)).connections ∧
        (calls.foldl Registry.step (.new events)).Selects (isFrame data) connection data res :=
  ((Refines.new events exps).run hk hs).findHandler_iff

theorem found_iff_selected_sample :
    (∃ order, Sample.raised.dispatcher.FindHandler (fun _ => false) order Sample.raised.events 3 5 = .ok (some 8)) ↔
      3 ∈ (Sample.calls.foldl Registry.step (.new Sample.events)).connections ∧
        (Sample.calls.foldl Registry.step (.new Sample.events)).Selects false 3 5 (some 8) :=
  found_iff_selected rfl Sample.allowed 3 5 (some 8)

/-- What is found is left open by `pairs` exactly if two expectations are registered for matching events of
the highest level. -/
theorem same_for_all_orders_iff
    (hs : calls.foldlM (step isFrame checkAllValidations) (new events exps) = .ok s)
    (hk : Run.Allows Registry.step Registry.KeepsLevel (.new events) calls) (connection : Nat) (data : D) :
    (∀ order order', s.dispatcher.FindHandler isFrame order s.events connection data =
        s.dispatcher.FindHandler isFrame order' s.events connection data) ↔
      (connection ∈ (calls.foldl Registry.step (.new events)).connections → ∀ event exp event' exp',
        (calls.foldl Registry.step (.new events)).Top (isFrame data) connection data event exp →
        (calls.foldl Registry.step (.new events)).Top (isFrame data) connection data event' exp' → exp = exp') := by
  have h := (Refines.new events exps).run hk hs
  generalize calls.foldl Registry.step (.new events) = r at *
  constructor
  · intro hsame hconn event exp event' exp' htop htop'
    obtain ⟨order, ho⟩ := h.findHandler_iff.mpr ⟨hconn, (show r.Selects _ _ _ (some exp) from ⟨event, htop⟩)⟩
    obtain ⟨order', ho'⟩ := h.findHandler_iff.mpr ⟨hconn, (show r.Selects _ _ _ (some exp') from ⟨event', htop'⟩)⟩
    rw [hsame order order', ho'] at ho
    cases ho
    rfl
  · intro huniq order order'
    by_cases hconn : connection ∈ r.connections
    · obtain ⟨res, ho⟩ : ∃ res, s.dispatcher.FindHandler isFrame order s.events connection data = .ok res :=
        h.findHandler_total hconn order
      obtain ⟨res', ho'⟩ : ∃ res, s.dispatcher.FindHandler isFrame order' s.events connection data = .ok res :=
        h.findHandler_total hconn order'
      have hsel := (h.findHandler_iff.mp ⟨order, ho⟩).2
      have hsel' := (h.findHandler_iff.mp ⟨order', ho'⟩).2
      rw [ho, ho']
      rcases res with _ | exp <;> rcases res' with _ | exp'
      · rfl
      · obtain ⟨event, htop⟩ := hsel'
        exact absurd htop.1 (hsel event exp')
      · obtain ⟨event, htop⟩ := hsel
        exact absurd htop.1 (hsel' event exp)
      · obtain ⟨event, htop⟩ := hsel
        obtain ⟨event', htop'⟩ := hsel'
        rw [huniq hconn event exp event' exp' htop htop']
    · rw [h.findHandler_not_connected hconn, h.findHandler_not_connected hconn]

theorem same_for_all_orders_iff_sample :
    (∀ order order', Sample.raised.dispatcher.FindHandler (fun _ => false) order Sample.raised.events 3 5 =
        Sample.raised.dispatcher.FindHandler (fun _ => false) order' Sample.raised.events 3 5) ↔
      (3 ∈ (Sample.calls.foldl Registry.step (.new Sample.events)).connections → ∀ event exp event' exp',
        (Sample.calls.foldl Registry.step (.new Sample.events)).Top false 3 5 event exp →
        (Sample.calls.foldl Registry.step (.new Sample.events)).Top false 3 5 event' exp' → exp = exp') :=
  same_for_all_orders_iff rfl Sample.allowed 3 5

/-! ### Occurrences -/

theorem occur_occurences (data : Option D) (res : Option Nat) (x : Nat) :
    ((s.occur checkAllValidations data res).exps x).occurences = (s.exps x).occurences + res.toList.count x := by
  rcases res with _ | exp
  · rfl
  · show (Function.update s.exps exp _ x).occurences = _
    by_cases hx : x = exp
    · subst hx
      rw [Function.update_self, (Expectation.occur_spec checkAllValidations data (s.exps x)).1.occurences]
      simp
    · rw [Function.update_of_ne hx]
      simp [Ne.symm hx]

theorem validate_occurences (timestamp : Int) (e : Expectation D) :
    (e.validate checkAllValidations timestamp).occurences = e.occurences := by
  obtain ⟨status, errorMessage, h, -⟩ := Expectation.validate_spec checkAllValidations timestamp e
  rw [h]

theorem foldl_validate_occurences (timestamp : Int) (visited : List Nat) (s : DispatcherState D) (x : Nat) :
    ((visited.foldl (fun self exp => self.setExp exp ((self.exps exp).validate checkAllValidations timestamp)) s).exps
      x).occurences = (s.exps x).occurences := by
  induction visited generalizing s with
  | nil => rfl
  | cons exp visited ih =>
    rw [List.foldl_cons, ih]
    show (Function.update s.exps exp _ x).occurences = _
    by_cases hx : x = exp
    · subst hx
      rw [Function.update_self, validate_occurences]
    · rw [Function.update_of_ne hx]

/-- A call that does not raise an event leaves the counters. -/
theorem step_occurences {call : DispatcherCall D} (hno : call.raises = false)
    (hs : s.step isFrame checkAllValidations call = .ok s') (x : Nat) :
    (s'.exps x).occurences = (s.exps x).occurences := by
  cases call with
  | raiseEvent | raisePredefined => cases hno
  | event | addConnection | clearEvents => cases hs; rfl
  | expectation exp object =>
    cases hs
    show (Function.update s.exps exp _ x).occurences = _
    by_cases hx : x = exp
    · subst hx
      rw [Function.update_self]
    · rw [Function.update_of_ne hx]
  | addEvent | removeEvent =>
    obtain ⟨d, -, hs⟩ := bind_eq_ok.mp hs
    cases hs
    rfl
  | finish connections order timestamp =>
    simp only [step] at hs
    split at hs <;> cases hs
    · rfl
    · exact foldl_validate_occurences timestamp _ _ x

theorem delivers_of_run (h : Refines s r) (hk : Run.Allows Registry.step Registry.KeepsLevel r calls)
    (hs : calls.foldlM (step isFrame checkAllValidations) s = .ok s') :
    ∃ delivered, r.Delivers isFrame calls delivered ∧
      ∀ x, (s'.exps x).occurences = (s.exps x).occurences + delivered.count x := by
  induction calls generalizing s r with
  | nil =>
    cases hs
    exact ⟨[], .nil r, fun x => rfl⟩
  | cons call calls ih =>
    rw [List.foldlM_cons] at hs
    obtain ⟨s₁, hs₁, hs⟩ := bind_eq_ok.mp hs
    obtain ⟨delivered, hdel, hcount⟩ := ih (h.step hk.1 hs₁) hk.2 hs
    by_cases hno : call.raises = false
    · exact ⟨delivered, .other hno hdel, fun x => by rw [hcount, step_occurences hno hs₁]⟩
    · cases call with
      | raiseEvent order connection data =>
        obtain ⟨res, hres, hs₁⟩ := bind_eq_ok.mp hs₁
        cases hs₁
        refine ⟨res.toList ++ delivered, .raiseEvent (h.findHandler_iff.mp ⟨order, hres⟩).2 hdel, fun x => ?_⟩
        rw [hcount, occur_occurences, List.count_append, Nat.add_assoc]
      | raisePredefined connection event =>
        obtain ⟨res, hres, hs₁⟩ := bind_eq_ok.mp hs₁
        cases hs₁
        obtain ⟨hconn, rfl⟩ := h.getHandler_ok hres
        refine ⟨_, .raisePredefined hdel, fun x => ?_⟩
        rw [hcount, occur_occurences, List.count_append, Nat.add_assoc]
      | _ => exact absurd rfl hno

/-- In every run each counter is the number of events that were selected for its expectation: none is lost and
none is counted twice, whatever the actions call. -/
theorem occurences_eq_delivered
    (hs : calls.foldlM (step isFrame checkAllValidations) (new events exps) = .ok s)
    (hk : Run.Allows Registry.step Registry.KeepsLevel (.new events) calls) :
    ∃ delivered, (Registry.new events).Delivers isFrame calls delivered ∧
      ∀ x, (s.exps x).occurences = (exps x).occurences + delivered.count x :=
  delivers_of_run (Refines.new events exps) hk hs

theorem occurences_eq_delivered_sample :
    ∃ delivered, (Registry.new Sample.events).Delivers (fun _ => false) Sample.calls delivered ∧
      ∀ x, (Sample.raised.exps x).occurences = (Sample.exps x).occurences + delivered.count x :=
  occurences_eq_delivered rfl Sample.allowed

end DispatcherState

end Atf
