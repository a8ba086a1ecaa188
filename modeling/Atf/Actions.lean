import Atf.Lib.Sequence

/-!
# `Do` and `DoOnce` (`expectations.lua`)

`DoOnce` stores a function that takes itself out of the list of actions by the position it had when it was
registered, while `Action` runs over the list up to the length it had at the start. When the function
stands last this does what is documented. When an action stands behind it, that action moves forward under
the loop and is left out, and the loop then calls past the end of the list, which raises.
-/

namespace Atf
open Lua

/-- An entry of `actions`; a function of `DoOnce` knows its position. -/
inductive ActionEntry (F : Type)
  | always (func : F)
  | once (func : F) (idx : Nat)

abbrev Actions (F : Type) := List (ActionEntry F)

namespace ActionEntry
variable {F : Type}

def func : ActionEntry F → F
  | always func => func
  | once func _ => func

/-- What a call of the entry does to the list. -/
def call (actions : Actions F) : ActionEntry F → LuaM (Actions F)
  | always _ => .ok actions
  | once _ idx => tableRemove actions idx

end ActionEntry

namespace Actions
variable {F D : Type}

def Do (self : Actions F) (func : F) : Actions F := self ++ [.always func]

def DoOnce (self : Actions F) (func : F) : Actions F := self ++ [.once func (self.length + 1)]

/-- `count` rounds of the loop of `Action` from `i` on, with the functions called. -/
def loop : Nat → Nat → Actions F → LuaM (Actions F × List F)
  | 0, _, self => .ok (self, [])
  | count + 1, i, self =>
    match at? self i with
    | none => .error "attempt to call a nil value (field '?')"
    | some entry => do
      let self ← entry.call self
      let (self, called) ← loop count (i + 1) self
      return (self, entry.func :: called)

def action (self : Actions F) : LuaM (Actions F × List F) := loop self.length 1 self

/-! ### The documented calls -/

inductive Op (F D : Type)
  | Do (func : F)
  | DoOnce (func : F)
  | Action (data : D)

def Op.isAction : Op F D → Bool
  | .Action _ => true
  | _ => false

/-- The calls made at each occurrence, with the data they are given. -/
def exec : List (Op F D) → Actions F → LuaM (List (List (F × D)))
  | [], _ => .ok []
  | .Do func :: ops, self => exec ops (self.Do func)
  | .DoOnce func :: ops, self => exec ops (self.DoOnce func)
  | .Action data :: ops, self => do
    let (self, called) ← self.action
    let rest ← exec ops self
    return called.map (·, data) :: rest

/-- The functions to be called at an occurrence after `before`: those of `Do`, and those of `DoOnce` with
no occurrence since. -/
def due : List (Op F D) → List F
  | [] => []
  | .Do func :: before => func :: due before
  | .DoOnce func :: before => if before.any Op.isAction then due before else func :: due before
  | .Action _ :: before => due before

def documented (before : List (Op F D)) : List (Op F D) → List (List (F × D))
  | [] => []
  | .Action data :: ops => (due before).map (·, data) :: documented (before ++ [.Action data]) ops
  | op :: ops => documented (before ++ [op]) ops

/-- An action that is registered right after a `DoOnce` is followed by no occurrence. -/
def Direct (ops : List (Op F D)) : Prop :=
  ∀ pre func op post, ops = pre ++ .DoOnce func :: op :: post → op.isAction = false → post.any Op.isAction = false

theorem direct_nil : Direct ([] : List (Op F D)) := fun pre _ _ _ h => by simp at h

theorem direct_single (op : Op F D) : Direct [op] := fun pre _ _ _ h => by
  rcases pre with _ | ⟨_, _ | ⟨_, pre⟩⟩ <;> simp at h

theorem direct_cons_cons {op op' : Op F D} {ops : List (Op F D)} :
    Direct (op :: op' :: ops) ↔
      ((∃ func, op = .DoOnce func) → op'.isAction = false → ops.any Op.isAction = false) ∧ Direct (op' :: ops) := by
  constructor
  · intro h
    refine ⟨?_, fun pre func o post heq => h (op :: pre) func o post (by rw [heq]; rfl)⟩
    rintro ⟨func, rfl⟩
    exact h [] func op' ops rfl
  · rintro ⟨hhead, htail⟩ pre func o post heq
    rcases pre with _ | ⟨p, pre⟩
    · cases heq
      exact hhead ⟨func, rfl⟩
    · exact htail pre func o post (List.cons.inj heq).2

/-! ### The loop of `Action` -/

theorem at?_middle (pre post : Actions F) (entry : ActionEntry F) :
    at? (pre ++ entry :: post) (pre.length + 1) = some entry := by
  rw [at?_succ, List.getElem?_append_right (Nat.le_refl _), Nat.sub_self]
  rfl

theorem loop_succ {count i : Nat} {self : Actions F} {entry : ActionEntry F} (hat : at? self i = some entry) :
    loop (count + 1) i self = (entry.call self).bind fun self' =>
      (loop count (i + 1) self').map fun p => (p.1, entry.func :: p.2) := by
  rw [loop, hat]
  simp only [bind]
  cases entry.call self with
  | error msg => rfl
  | ok self' => cases hl : loop count (i + 1) self' <;> simp [Except.bind, Except.map, hl, pure, Except.pure]

theorem loop_succ_always {count i : Nat} {self : Actions F} {func : F} (hat : at? self i = some (.always func)) :
    loop (count + 1) i self = (loop count (i + 1) self).map fun p => (p.1, func :: p.2) := loop_succ hat

theorem loop_succ_once {count i idx : Nat} {self self' : Actions F} {func : F}
    (hat : at? self i = some (.once func idx)) (hrem : tableRemove self idx = .ok self') :
    loop (count + 1) i self = (loop count (i + 1) self').map fun p => (p.1, func :: p.2) := by
  rw [loop_succ hat, show ActionEntry.call self (.once func idx) = .ok self' from hrem]
  rfl

/-- The rounds over functions of `Do` call each of them and leave the list alone. -/
theorem loop_always (dos : List F) (pre post : Actions F) (count : Nat) :
    loop (dos.length + count) (pre.length + 1) (pre ++ (dos.map .always ++ post)) =
      (loop count (pre.length + dos.length + 1) (pre ++ (dos.map .always ++ post))).map
        fun p => (p.1, dos ++ p.2) := by
  induction dos generalizing pre with
  | nil =>
    rw [List.length_nil, Nat.zero_add, Nat.add_zero]
    cases loop count (pre.length + 1) (pre ++ (List.map .always [] ++ post)) <;> rfl
  | cons func dos ih =>
    have hlist : pre ++ (List.map .always (func :: dos) ++ post) =
        pre ++ [.always func] ++ (dos.map .always ++ post) := by simp
    have hlen : (func :: dos).length + count = dos.length + count + 1 := by
      rw [List.length_cons]
      omega
    have hat : at? (pre ++ (List.map .always (func :: dos) ++ post)) (pre.length + 1) = some (.always func) :=
      at?_middle ..
    have ih := ih (pre ++ [.always func])
    rw [← hlist, List.length_append, List.length_singleton] at ih
    rw [hlen, loop_succ_always hat, ih, List.length_cons,
      show pre.length + 1 + dos.length + 1 = pre.length + (dos.length + 1) + 1 by omega]
    cases loop count (pre.length + (dos.length + 1) + 1) (pre ++ (List.map .always (func :: dos) ++ post)) <;> rfl

/-- More rounds than entries: the loop comes to a position that holds `nil`, if it gets that far. -/
theorem loop_raises (count i : Nat) (self : Actions F) (hlt : self.length + 1 < i + count) (hc : count ≠ 0) :
    ∃ msg, loop count i self = .error msg := by
  induction count generalizing i self with
  | zero => exact absurd rfl hc
  | succ count ih =>
    cases hat : at? self i with
    | none => exact ⟨_, by rw [loop, hat]⟩
    | some entry =>
      rw [loop_succ hat]
      have hi : i ≤ self.length := by
        unfold at? at hat
        split at hat
        · cases hat
        · have := (List.getElem?_eq_some_iff.mp hat).1
          omega
      cases hcall : entry.call self with
      | error msg => exact ⟨msg, rfl⟩
      | ok self' =>
        have hle : self'.length ≤ self.length := by
          cases entry with
          | always func => cases hcall; exact Nat.le_refl _
          | once func idx => exact length_of_tableRemove hcall
        obtain ⟨msg, hmsg⟩ := ih (i + 1) self' (by omega) (by omega)
        exact ⟨msg, congrArg (Except.map _) hmsg⟩

theorem action_always (dos : List F) : action (dos.map .always) = .ok (dos.map .always, dos) := by
  have h := loop_always dos [] [] 0
  simp only [List.nil_append, List.append_nil, List.length_nil, Nat.zero_add, Nat.add_zero, loop] at h
  rw [action, List.length_map, h]
  simp [Except.map]

theorem action_once_last (dos : List F) (func : F) :
    action (dos.map .always ++ [.once func (dos.length + 1)]) = .ok (dos.map .always, dos ++ [func]) := by
  have h := loop_always dos [] [.once func (dos.length + 1)] 1
  simp only [List.nil_append, List.length_nil, Nat.zero_add] at h
  have hat := at?_middle (dos.map .always) [] (.once func (dos.length + 1))
  have hrem := tableRemove_middle (dos.map .always) [] (ActionEntry.once func (dos.length + 1))
  rw [List.length_map] at hat hrem
  rw [action, List.length_append, List.length_map, List.length_singleton, h,
    loop_succ_once hat hrem, List.append_nil]
  rfl

/-- An entry behind the one of `DoOnce` moves forward, so the loop runs past the end. -/
theorem action_once_raises (dos : List F) (func : F) {rest : Actions F} (hrest : rest ≠ []) :
    ∃ msg, action (dos.map .always ++ .once func (dos.length + 1) :: rest) = .error msg := by
  have h := loop_always dos [] (.once func (dos.length + 1) :: rest) (rest.length + 1)
  simp only [List.nil_append, List.length_nil, Nat.zero_add] at h
  have hat := at?_middle (dos.map .always) rest (.once func (dos.length + 1))
  have hrem := tableRemove_middle (dos.map .always) rest (ActionEntry.once func (dos.length + 1))
  rw [List.length_map] at hat hrem
  have hne : rest.length ≠ 0 := fun h => hrest (List.length_eq_zero_iff.mp h)
  obtain ⟨msg, hmsg⟩ := loop_raises rest.length (dos.length + 1 + 1) (dos.map .always ++ rest)
    (by rw [List.length_append, List.length_map]; omega) hne
  refine ⟨msg, ?_⟩
  rw [action, List.length_append, List.length_map, List.length_cons, h,
    loop_succ_once hat hrem, hmsg]
  rfl

/-! ### Runs -/

/-- The functions registered with `Do`. -/
def standing (before : List (Op F D)) : List F :=
  before.filterMap fun | .Do func => some func | _ => none

theorem standing_concat (before : List (Op F D)) (op : Op F D) :
    standing (before ++ [op]) = standing before ++ (match op with | .Do func => [func] | _ => []) := by
  rw [standing, List.filterMap_append, ← standing]
  rcases op with func | func | data
  · rfl
  · rfl
  · rfl

theorem due_eq_standing {before : List (Op F D)} (data : D) : due (before ++ [.Action data]) = standing before := by
  induction before with
  | nil => rfl
  | cons op before ih =>
    rcases op with func | func | data'
    · exact congrArg (func :: ·) ih
    · have hany : (before ++ [Op.Action data]).any Op.isAction = true := by
        rw [List.any_append]
        exact Bool.or_true _
      rw [List.cons_append, due, if_pos hany, ih]
      rfl
    · exact ih

theorem due_concat {before : List (Op F D)} {op : Op F D} {func : F} (hop : op = .Do func ∨ op = .DoOnce func) :
    due (before ++ [op]) = due before ++ [func] := by
  have hno : op.isAction = false := by rcases hop with rfl | rfl <;> rfl
  induction before with
  | nil => rcases hop with rfl | rfl <;> rfl
  | cons op' before ih =>
    rcases op' with func' | func' | data'
    · exact congrArg (func' :: ·) ih
    · have hany : (before ++ [op]).any Op.isAction = before.any Op.isAction := by simp [hno]
      rw [List.cons_append, due, due, hany, ih]
      split <;> rfl
    · exact ih

theorem direct_cons {op : Op F D} (hop : ∀ func, op ≠ .DoOnce func) {ops : List (Op F D)} :
    Direct (op :: ops) ↔ Direct ops := by
  rcases ops with _ | ⟨op', ops⟩
  · exact iff_of_true (direct_single op) direct_nil
  · rw [direct_cons_cons]
    exact and_iff_right fun ⟨func, hfunc⟩ => absurd hfunc (hop func)

theorem direct_of_no_action {ops : List (Op F D)} (hno : ops.any Op.isAction = false) : Direct ops := by
  rintro pre func op post rfl -
  simp only [List.any_append, List.any_cons, Bool.or_eq_false_iff] at hno
  exact hno.2.2.2

theorem exec_no_action {ops : List (Op F D)} (hno : ops.any Op.isAction = false) (self : Actions F)
    (before : List (Op F D)) : exec ops self = .ok (documented before ops) := by
  induction ops generalizing self before with
  | nil => rfl
  | cons op ops ih =>
    rw [List.any_cons, Bool.or_eq_false_iff] at hno
    rcases op with func | func | data
    · exact ih hno.2 _ _
    · exact ih hno.2 _ _
    · cases hno.1

/-- With an entry behind the one of `DoOnce`, the next occurrence raises. -/
theorem exec_raises {ops : List (Op F D)} (hany : ops.any Op.isAction = true) (dos : List F) (func : F)
    {rest : Actions F} (hrest : rest ≠ []) :
    ∃ msg, exec ops (dos.map .always ++ .once func (dos.length + 1) :: rest) = .error msg := by
  induction ops generalizing rest with
  | nil => cases hany
  | cons op ops ih =>
    rcases op with func' | func' | data
    · rw [exec, Do, List.append_assoc, List.cons_append]
      exact ih hany (by simp)
    · rw [exec, DoOnce, List.append_assoc, List.cons_append]
      exact ih hany (by simp)
    · obtain ⟨msg, hmsg⟩ := action_once_raises dos func hrest
      exact ⟨msg, by rw [exec, hmsg]; rfl⟩

theorem exec_action {data : D} {ops : List (Op F D)} {self self' : Actions F} {called : List F}
    {calls : List (List (F × D))} (h : self.action = .ok (self', called)) :
    exec (.Action data :: ops) self = .ok (called.map (·, data) :: calls) ↔ exec ops self' = .ok calls := by
  rw [exec, h]
  show (do
    let rest ← exec ops self'
    return called.map (·, data) :: rest) = _ ↔ _
  rw [bind_eq_ok]
  constructor
  · rintro ⟨rest, hrest, heq⟩
    cases heq
    exact hrest
  · intro hrest
    exact ⟨calls, hrest, rfl⟩

/-- A registration behind a pending `DoOnce` decides the run at the next occurrence. -/
theorem exec_spoiled {ops : List (Op F D)} (before : List (Op F D)) (dos : List F) (func : F) (entry : ActionEntry F)
    {op : Op F D} (hop : op.isAction = false) :
    exec ops (dos.map .always ++ .once func (dos.length + 1) :: [entry]) = .ok (documented (before ++ [op]) ops) ↔
      Direct (.DoOnce func :: op :: ops) := by
  cases hany : ops.any Op.isAction with
  | true =>
    obtain ⟨msg, hmsg⟩ := exec_raises hany dos func (List.cons_ne_nil entry [])
    rw [hmsg, direct_cons_cons]
    refine iff_of_false nofun fun h => ?_
    rw [h.1 ⟨func, rfl⟩ hop] at hany
    cases hany
  | false =>
    refine iff_of_true (exec_no_action hany _ _) (direct_of_no_action ?_)
    rw [List.any_cons, List.any_cons, hop, hany]
    rfl

/-- By induction over the run, from a list without pending `DoOnce` or with one that stands last. -/
theorem exec_eq_documented (ops before : List (Op F D)) (dos : List F) (hdos : standing before = dos) :
    (due before = dos → (exec ops (dos.map .always) = .ok (documented before ops) ↔ Direct ops)) ∧
      ∀ func, due before = dos ++ [func] →
        (exec ops (dos.map .always ++ [.once func (dos.length + 1)]) = .ok (documented before ops) ↔
          Direct (.DoOnce func :: ops)) := by
  induction ops generalizing before dos with
  | nil => exact ⟨fun _ => iff_of_true rfl direct_nil, fun func _ => iff_of_true rfl (direct_single _)⟩
  | cons op ops ih =>
    rcases op with g | g | data
    · have hstand : standing (before ++ [.Do g]) = dos ++ [g] := by
        rw [standing_concat, hdos]
      refine ⟨fun hdue => ?_, fun func _ => ?_⟩
      · have := (ih (before ++ [.Do g]) (dos ++ [g]) hstand).1 (by rw [due_concat (.inl rfl), hdue])
        rw [direct_cons nofun, ← this, List.map_append]
        rfl
      · rw [documented, exec, Do, List.append_assoc]
        · exact exec_spoiled before dos func (.always g) rfl
        · nofun
    · have hstand : standing (before ++ [.DoOnce g]) = dos := by
        rw [standing_concat, hdos, List.append_nil]
      refine ⟨fun hdue => ?_, fun func _ => ?_⟩
      · have := (ih (before ++ [.DoOnce g]) dos hstand).2 g (by rw [due_concat (.inr rfl), hdue])
        rw [← this, exec, DoOnce, List.length_map]
        rfl
      · rw [documented, exec, DoOnce, List.append_assoc]
        · exact exec_spoiled before dos func (.once g _) rfl
        · nofun
    · have hstand : standing (before ++ [.Action data]) = dos := by
        rw [standing_concat, hdos, List.append_nil]
      have hih := (ih (before ++ [.Action data]) dos hstand).1 ((due_eq_standing data).trans hdos)
      refine ⟨fun hdue => ?_, fun func hdue => ?_⟩
      · rw [documented, hdue, exec_action (action_always dos), direct_cons nofun]
        exact hih
      · rw [documented, hdue, exec_action (action_once_last dos func), direct_cons_cons, direct_cons nofun]
        rw [hih]
        exact (and_iff_right fun _ h => nomatch h).symm

/-- The calls are the documented ones exactly when nothing is registered between a `DoOnce` and the next
occurrence. -/
theorem exec_documented_iff (ops : List (Op F D)) :
    exec ops [] = .ok (documented [] ops) ↔ Direct ops :=
  (exec_eq_documented ops [] [] rfl).1 rfl

/-- A `Do` behind a `DoOnce`: the occurrence raises. -/
theorem exec_doOnce_do :
    exec [.DoOnce "once", .Do "always", .Action ()] [] = .error "attempt to call a nil value (field '?')" ∧
      documented [] [.DoOnce "once", .Do "always", .Action ()] = [[("once", ()), ("always", ())]] ∧
      exec [.DoOnce "once", .Do "always", .Action ()] [] ≠
        .ok (documented [] [.DoOnce "once", .Do "always", .Action ()]) :=
  ⟨rfl, rfl, nofun⟩

end Actions

end Atf
