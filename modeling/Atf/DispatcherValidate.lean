import Atf.DispatcherRun

/-!
# `validateAll` (`event_dispatcher.lua`, `expectations.lua`)

An expectation may be registered under several events, and `pairs` visits the pools in any order. Neither
matters: a second `validate` at the same time changes nothing.
-/

namespace Atf
open Lua

theorem Dict.set_set {κ ν : Type} [DecidableEq κ] (d : Dict κ ν) (k : κ) (v : ν) :
    (d.set k v).set k v = d.set k v := by
  induction d with
  | nil => simp [Dict.set]
  | cons p d ih =>
    by_cases hk : p.1 = k
    · simp [Dict.set, hk]
    · simp [Dict.set, hk, ih]

namespace Expectation
variable {D : Type} {e : Expectation D} {checkAll : Option Bool} {timestamp : Int}

theorem checkValidations_of_failed (h : e.status = some .FAILED) : e.checkValidations checkAll = e := by
  unfold checkValidations
  split
  · rw [← h]
  · rfl

theorem checkTimes_failed (h : e.status = some .FAILED) : e.checkTimes.status = some .FAILED := by
  unfold checkTimes
  split
  · split
    · rfl
    · rw [if_neg (by simp [h])]
      exact h
  · exact h

theorem checkTimes_exceeded (hle : (e.occurences : Int) ≥ e.timesLE) (hx : e.exceeded = true) :
    e.checkTimes = { e with
      status := some .FAILED
      errorMessage := e.errorMessage.set "Times" "The most allowed occurences boundary exceed" } := by
  unfold checkTimes
  rw [if_pos hle, if_pos hx]

theorem checkTimes_within (hle : (e.occurences : Int) ≥ e.timesLE) (hx : e.exceeded = false) (hs : e.status = none) :
    e.checkTimes = { e with status := some .SUCCESS } := by
  unfold checkTimes
  rw [if_pos hle, if_neg (Bool.eq_false_iff.mp hx), if_pos (by simp [hs])]

theorem checkTimes_settled (hx : e.exceeded = false) (hs : e.status ≠ none) : e.checkTimes = e := by
  have hbeq : (e.status == none) = false := beq_false_of_ne hs
  unfold checkTimes
  rw [if_neg (Bool.eq_false_iff.mp hx), if_neg (Bool.eq_false_iff.mp hbeq), ite_self]

theorem checkTimes_few (hle : ¬ (e.occurences : Int) ≥ e.timesLE) : e.checkTimes = e := by
  unfold checkTimes
  rw [if_neg hle]

theorem checkTimes_idem (e : Expectation D) : e.checkTimes.checkTimes = e.checkTimes := by
  by_cases hle : (e.occurences : Int) ≥ e.timesLE
  · by_cases hx : e.exceeded = true
    · rw [checkTimes_exceeded hle hx]
      refine (checkTimes_exceeded (e := { e with
        status := some .FAILED
        errorMessage := e.errorMessage.set "Times" "The most allowed occurences boundary exceed" }) hle hx).trans ?_
      rw [Dict.set_set]
    · have hx := Bool.eq_false_iff.mpr hx
      by_cases hs : e.status = none
      · rw [checkTimes_within hle hx hs]
        exact checkTimes_settled hx nofun
      · rw [checkTimes_settled hx hs, checkTimes_settled hx hs]
  · rw [checkTimes_few hle, checkTimes_few hle]

/-- `checkTimes` changes the status and the messages only, and it leaves a status that is set. -/
theorem checkTimes_keeps (e : Expectation D) : ∃ status errorMessage,
    e.checkTimes = { e with status, errorMessage } ∧ (status = none → e.status = none) := by
  unfold checkTimes
  split
  · split
    · exact ⟨_, _, rfl, nofun⟩
    · split
      · exact ⟨_, e.errorMessage, rfl, nofun⟩
      · exact ⟨e.status, e.errorMessage, rfl, id⟩
  · exact ⟨e.status, e.errorMessage, rfl, id⟩

theorem checkTimeout_settled (h : e.status ≠ none) : e.checkTimeout timestamp = e := by
  unfold checkTimeout
  rw [if_neg]
  simp [h]

/-- After `checkTimeout` an expectation without status is not too old. -/
theorem checkTimeout_none (h : (e.checkTimeout timestamp).status = none) :
    ¬ timestamp - e.ts > e.timeout ∧ e.checkTimeout timestamp = e := by
  unfold checkTimeout at h ⊢
  split
  · rename_i hexp
    rw [if_pos hexp] at h
    cases h
  · rename_i hexp
    rw [if_neg hexp] at h
    exact ⟨by simpa [h] using hexp, rfl⟩

theorem checkTimeout_young (h : ¬ timestamp - e.ts > e.timeout) : e.checkTimeout timestamp = e := by
  unfold checkTimeout
  rw [if_neg]
  simp [h]

theorem validate_validate (e : Expectation D) :
    (e.validate checkAll timestamp).validate checkAll timestamp = e.validate checkAll timestamp := by
  rcases checkValidations_spec checkAll e with ⟨-, h₁⟩ | ⟨hno, h₁⟩
  · -- the failure is noticed, so the status is `FAILED` and stays
    have h₂ : e.validate checkAll timestamp = checkTimes { e with status := some .FAILED } := by
      unfold validate
      rw [h₁, checkTimeout_settled (by simp)]
    have hfailed : (e.validate checkAll timestamp).status = some .FAILED := by
      rw [h₂]
      exact checkTimes_failed rfl
    rw [validate, checkValidations_of_failed hfailed, checkTimeout_settled (by simp [hfailed]), h₂]
    exact checkTimes_idem _
  · have h₂ : e.validate checkAll timestamp = (e.checkTimeout timestamp).checkTimes := by
      unfold validate
      rw [h₁]
    obtain ⟨status, errorMessage, hv, -⟩ := validate_spec checkAll timestamp e
    have h₃ : (e.validate checkAll timestamp).checkValidations checkAll = e.validate checkAll timestamp := by
      rcases checkValidations_spec checkAll (e.validate checkAll timestamp) with ⟨hyes, -⟩ | ⟨-, h⟩
      · rw [hv] at hyes
        exact absurd hyes hno
      · exact h
    have h₄ : (e.validate checkAll timestamp).checkTimeout timestamp = e.validate checkAll timestamp := by
      by_cases hs : (e.validate checkAll timestamp).status = none
      · obtain ⟨status', errorMessage', ht, hkeep⟩ := checkTimes_keeps (e.checkTimeout timestamp)
        have hnone : (e.checkTimeout timestamp).status = none := by
          rw [h₂, ht] at hs
          exact hkeep hs
        obtain ⟨hyoung, -⟩ := checkTimeout_none hnone
        rw [hv]
        exact checkTimeout_young hyoung
      · exact checkTimeout_settled hs
    rw [validate, h₃, h₄, h₂]
    exact checkTimes_idem _

end Expectation

namespace DispatcherState
variable {D : Type} {isFrame : D → Bool} {checkAllValidations : Option Bool} {events : Nat → EventObject D}
  {exps : Nat → Expectation D} {calls : List (DispatcherCall D)} {s s' : DispatcherState D} {r : Registry D}

/-- A function that changes nothing the second time is applied to each expectation of the list once. -/
theorem foldl_setExp_exps {f : Expectation D → Expectation D} (hf : ∀ e, f (f e) = f e) (visited : List Nat)
    (s : DispatcherState D) (x : Nat) :
    (x ∈ visited → (visited.foldl (fun s exp => s.setExp exp (f (s.exps exp))) s).exps x = f (s.exps x)) ∧
      (x ∉ visited → (visited.foldl (fun s exp => s.setExp exp (f (s.exps exp))) s).exps x = s.exps x) := by
  induction visited generalizing s with
  | nil => exact ⟨nofun, fun _ => rfl⟩
  | cons exp visited ih =>
    obtain ⟨hin, hout⟩ := ih (s.setExp exp (f (s.exps exp)))
    have hset : (s.setExp exp (f (s.exps exp))).exps x = if x = exp then f (s.exps x) else s.exps x := by
      show Function.update s.exps exp _ x = _
      by_cases hx : x = exp
      · subst hx
        rw [Function.update_self, if_pos rfl]
      · rw [Function.update_of_ne hx, if_neg hx]
    rw [hset] at hin hout
    rw [List.foldl_cons, List.mem_cons, not_or]
    by_cases hmem : x ∈ visited
    · refine ⟨fun _ => ?_, fun hx => absurd hmem hx.2⟩
      rw [hin hmem]
      split
      · exact hf _
      · rfl
    · rw [hout hmem]
      refine ⟨fun hx => ?_, fun hx => if_neg hx.1⟩
      exact if_pos (hx.resolve_right hmem)

theorem mem_visited (h : Refines s r) (connections : Pairs Nat Pool) (order : Pairs Nat Nat) (x : Nat) :
    x ∈ s.dispatcher.visited connections order ↔ ∃ c e, r.handler (c, e) = some x := by
  have hall : ∀ l : Fin 4, l ∈ ([3, 2, 1, 0] : List (Fin 4)) := by decide
  unfold Dispatcher.visited
  constructor
  · intro hx
    obtain ⟨l, -, hx⟩ := List.mem_flatMap.mp hx
    obtain ⟨⟨c, pool⟩, hpool, hx⟩ := List.mem_flatMap.mp hx
    obtain ⟨⟨e, x⟩, hentry, rfl⟩ := List.mem_map.mp hx
    rw [connections.mem_visit, ← Entries.get_iff] at hpool
    rw [order.mem_visit, ← Entries.get_iff] at hentry
    have hl : s.dispatcher.lookup l c e = some x := Option.bind_eq_some_iff.mpr ⟨pool, hpool, hentry⟩
    exact ⟨c, e, ((h.lookup l c e x).mp hl).1⟩
  · rintro ⟨c, e, hx⟩
    have hl : s.dispatcher.lookup ⟨r.level e, h.levels c e x hx⟩ c e = some x := (h.lookup _ c e x).mpr ⟨hx, rfl⟩
    obtain ⟨pool, hpool, hentry⟩ := Option.bind_eq_some_iff.mp hl
    rw [Entries.get_iff, ← connections.mem_visit] at hpool
    rw [Entries.get_iff, ← order.mem_visit] at hentry
    refine List.mem_flatMap.mpr ⟨⟨r.level e, h.levels c e x hx⟩, hall _, ?_⟩
    exact List.mem_flatMap.mpr ⟨(c, pool), hpool, List.mem_map.mpr ⟨(e, x), hentry, rfl⟩⟩

/-- When the actions of an occurrence have returned, every registered expectation is validated, as if once,
and no other one is changed. -/
theorem finish_validates_registered
    (hs : calls.foldlM (step isFrame checkAllValidations) (new events exps) = .ok s)
    (hk : Run.Allows Registry.step Registry.KeepsLevel (.new events) calls) (hrunning : s.running ≠ [])
    (connections : Pairs Nat Pool) (order : Pairs Nat Nat) (timestamp : Int) :
    ∃ s', s.step isFrame checkAllValidations (.finish connections order timestamp) = .ok s' ∧ ∀ x,
      ((∃ c e, (calls.foldl Registry.step (.new events)).handler (c, e) = some x) →
        s'.exps x = (s.exps x).validate checkAllValidations timestamp) ∧
      ((¬ ∃ c e, (calls.foldl Registry.step (.new events)).handler (c, e) = some x) → s'.exps x = s.exps x) := by
  have h := (Refines.new events exps).run hk hs
  obtain ⟨exp, running, hrun⟩ := List.exists_cons_of_ne_nil hrunning
  refine ⟨{ s with running }.validateAll checkAllValidations connections order timestamp, ?_, fun x => ?_⟩
  · simp only [step, hrun]
  · have hfold := foldl_setExp_exps (f := fun e => e.validate checkAllValidations timestamp)
      (fun e => Expectation.validate_validate e) (s.dispatcher.visited connections order) { s with running } x
    rw [← mem_visited h connections order]
    exact hfold

theorem finish_validates_registered_sample :
    ∃ s', Sample.raised.step (fun _ => false) none (.finish .inOrder .inOrder 20) = .ok s' ∧ ∀ x,
      ((∃ c e, (Sample.calls.foldl Registry.step (.new Sample.events)).handler (c, e) = some x) →
        s'.exps x = (Sample.raised.exps x).validate none 20) ∧
      ((¬ ∃ c e, (Sample.calls.foldl Registry.step (.new Sample.events)).handler (c, e) = some x) →
        s'.exps x = Sample.raised.exps x) :=
  finish_validates_registered rfl Sample.allowed (List.cons_ne_nil 8 []) .inOrder .inOrder 20

end DispatcherState

end Atf
