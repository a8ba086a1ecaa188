import Atf.Expectations
import Mathlib.Order.Lattice
import Mathlib.Data.Int.Order.Basic

/-!
# When a failed validation fails the expectation

`validate` looks at `isAtLeastOneFail` only when validations stop at the first failure, when there is no
upper bound, or when the count stands exactly at the upper bound. A count below the upper bound that
already reaches the lower one is given `SUCCESS`, so a failed validation goes unnoticed exactly when some
count lies between the two (`Gap`).
-/

namespace Atf
open Lua

namespace Expectation
variable {D : Type} {checkAll : Option Bool} {e : Expectation D}

/-! ### Runs -/

/-- What can happen to an expectation after its cardinality was set. -/
inductive Step (D : Type)
  | validIf (func : Validation D)
  | setTimeout (ms : Int)
  | occur (data : Option D)
  | validate (timestamp : Int)

abbrev Judged (D : Type) := Expectation D × List Bool

def step (checkAll : Option Bool) (s : Judged D) : Step D → Judged D
  | .validIf func => (s.1.validIf func, s.2)
  | .setTimeout ms => (s.1.setTimeout ms, s.2)
  | .occur data => ((s.1.occur checkAll data).1, s.2 ++ (s.1.occur checkAll data).2)
  | .validate timestamp => (s.1.validate checkAll timestamp, s.2)

def run (checkAll : Option Bool) (s : Judged D) (steps : List (Step D)) : Judged D :=
  steps.foldl (step checkAll) s

/-! ### Occurrences -/

/-- Validations change the record of failures and the messages only. -/
structure Verified (e e' : Expectation D) : Prop where
  timesLE : e'.timesLE = e.timesLE
  timesGE : e'.timesGE = e.timesGE
  ts : e'.ts = e.ts
  timeout : e'.timeout = e.timeout
  occurences : e'.occurences = e.occurences
  status : e'.status = e.status
  verifyData : e'.verifyData = e.verifyData

theorem Verified.refl (e : Expectation D) : e.Verified e := ⟨rfl, rfl, rfl, rfl, rfl, rfl, rfl⟩

theorem Verified.trans {e' e'' : Expectation D} (h : e.Verified e') (h' : e'.Verified e'') : e.Verified e'' :=
  ⟨h'.timesLE.trans h.timesLE, h'.timesGE.trans h.timesGE, h'.ts.trans h.ts, h'.timeout.trans h.timeout,
    h'.occurences.trans h.occurences, h'.status.trans h.status, h'.verifyData.trans h.verifyData⟩

theorem verify_spec (e : Expectation D) (valid : Bool) (msg : Option String) :
    e.Verified (e.verify valid msg) ∧
      ((e.verify valid msg).isAtLeastOneFail = true ↔ e.isAtLeastOneFail = true ∨ valid = false) := by
  unfold verify
  cases valid with
  | false => exact ⟨⟨rfl, rfl, rfl, rfl, rfl, rfl, rfl⟩, by simp⟩
  | true =>
    simp only [Bool.not_true, Bool.false_eq_true, ↓reduceIte, reduceCtorEq, or_false]
    split
    · exact ⟨.refl e, Iff.rfl⟩
    · exact ⟨.refl e, Iff.rfl⟩
    · exact ⟨⟨rfl, rfl, rfl, rfl, rfl, rfl, rfl⟩, Iff.rfl⟩

/-- The record of failures says whether a function called has returned `false`. -/
theorem verifyAll_spec (data : D) (funcs : List (Validation D)) (e : Expectation D) :
    e.Verified (verifyAll checkAll data funcs e).1 ∧
      ((verifyAll checkAll data funcs e).1.isAtLeastOneFail = true ↔
        e.isAtLeastOneFail = true ∨ false ∈ (verifyAll checkAll data funcs e).2) := by
  induction funcs generalizing e with
  | nil => exact ⟨.refl e, by simp [verifyAll]⟩
  | cons func funcs ih =>
    obtain ⟨hv, hf⟩ := verify_spec e (func e.toExpectationData data).1 (func e.toExpectationData data).2
    simp only [verifyAll]
    split
    · refine ⟨hv, hf.trans ?_⟩
      simp only [List.mem_singleton, eq_comm]
    · obtain ⟨hv', hf'⟩ := ih (e.verify (func e.toExpectationData data).1 (func e.toExpectationData data).2)
      refine ⟨hv.trans hv', hf'.trans ?_⟩
      rw [hf, or_assoc, List.mem_cons, eq_comm (a := (func e.toExpectationData data).1)]

theorem occur_spec (checkAll : Option Bool) (data : Option D) (e : Expectation D) :
    Verified { e with occurences := e.occurences + 1 } (e.occur checkAll data).1 ∧
      ((e.occur checkAll data).1.isAtLeastOneFail = true ↔
        e.isAtLeastOneFail = true ∨ false ∈ (e.occur checkAll data).2) := by
  cases data with
  | none => exact ⟨.refl _, by simp [occur]⟩
  | some data => exact verifyAll_spec data e.verifyData { e with occurences := e.occurences + 1 }

/-! ### `validate` -/

def Noticed (checkAll : Option Bool) (e : Expectation D) : Prop :=
  e.isAtLeastOneFail = true ∧
    (checkAll = some false ∨ e.timesGE = none ∨ e.timesGE = some (e.occurences : Int))

theorem checkValidations_spec (checkAll : Option Bool) (e : Expectation D) :
    (e.Noticed checkAll ∧ e.checkValidations checkAll = { e with status := some .FAILED }) ∨
      (¬ e.Noticed checkAll ∧ e.checkValidations checkAll = e) := by
  have hiff : (e.isAtLeastOneFail && (checkAll == some false || e.timesGE == none ||
      e.timesGE == some (e.occurences : Int))) = true ↔ e.Noticed checkAll := by
    simp [Noticed, or_assoc]
  unfold checkValidations
  by_cases h : e.Noticed checkAll
  · exact .inl ⟨h, if_pos (hiff.mpr h)⟩
  · exact .inr ⟨h, if_neg fun h' => h (hiff.mp h')⟩

theorem checkTimeout_spec (timestamp : Int) (e : Expectation D) :
    ∃ status errorMessage, e.checkTimeout timestamp = { e with status, errorMessage } ∧
      (status = some .SUCCESS → e.status = some .SUCCESS) ∧ (status = none → e.status = none) := by
  unfold checkTimeout
  split
  · exact ⟨_, _, rfl, nofun, nofun⟩
  · exact ⟨e.status, e.errorMessage, rfl, id, id⟩

theorem exceeded_iff : e.exceeded = true ↔ ∃ upper, e.timesGE = some upper ∧ upper < (e.occurences : Int) := by
  unfold exceeded
  split
  · rename_i upper h
    simp [h]
  · rename_i h
    simp [h]

theorem checkTimes_spec (e : Expectation D) :
    ∃ status errorMessage, e.checkTimes = { e with status, errorMessage } ∧
      (status = some .SUCCESS → (e.status = some .SUCCESS ∨ e.status = none ∧ e.timesLE ≤ e.occurences) ∧
        (e.timesLE ≤ e.occurences → e.exceeded = false)) := by
  unfold checkTimes
  split
  · rename_i hle
    split
    · exact ⟨_, _, rfl, fun h => by cases h⟩
    · rename_i hex
      split
      · rename_i hn
        exact ⟨_, e.errorMessage, rfl, fun _ => ⟨.inr ⟨by simpa using hn, hle⟩, fun _ => by simpa using hex⟩⟩
      · exact ⟨e.status, e.errorMessage, rfl, fun h => ⟨.inl h, fun _ => by simpa using hex⟩⟩
  · rename_i hle
    exact ⟨e.status, e.errorMessage, rfl, fun h => ⟨.inl h, fun h' => absurd h' hle⟩⟩

/-- What `validate` keeps, and what a status of `SUCCESS` means after it. -/
theorem validate_spec (checkAll : Option Bool) (timestamp : Int) (e : Expectation D) :
    ∃ status errorMessage, e.validate checkAll timestamp = { e with status, errorMessage } ∧
      (status = some .SUCCESS → (e.status = some .SUCCESS ∨ e.timesLE ≤ e.occurences) ∧
        ¬ e.Noticed checkAll ∧ (e.timesLE ≤ e.occurences → e.exceeded = false)) := by
  unfold validate
  rcases checkValidations_spec checkAll e with ⟨-, h1⟩ | ⟨hn, h1⟩
  all_goals
    rw [h1]
    obtain ⟨s2, m2, h2, hs2, hn2⟩ := checkTimeout_spec timestamp _
    rw [h2]
    obtain ⟨s3, m3, h3, hs3⟩ := checkTimes_spec _
    rw [h3]
    refine ⟨s3, m3, rfl, fun h => ?_⟩
    obtain ⟨hst, hex⟩ := hs3 h
  · -- once failed it stays failed
    rcases hst with hst | ⟨hst, -⟩
    · cases hs2 hst
    · cases hn2 hst
  · refine ⟨?_, hn, hex⟩
    rcases hst with hst | ⟨-, hle⟩
    · exact .inl (hs2 hst)
    · exact .inr hle

/-! ### The verdict -/

/-- What holds along every run of an expectation with cardinality `c`. -/
structure Judging (c : Cardinality) (s : Judged D) : Prop where
  lower : s.1.timesLE = c.lower
  upper : s.1.timesGE = c.upper
  flag : s.1.isAtLeastOneFail = true ↔ false ∈ s.2
  counted : false ∈ s.2 → 1 ≤ s.1.occurences
  success : s.1.status = some .SUCCESS → c.lower ≤ s.1.occurences

theorem Judging.start (c : Cardinality) (name : String) (ts : Int) :
    Judging c (((new name ts).times c, []) : Judged D) :=
  ⟨rfl, rfl, by simp [times, new], nofun, nofun⟩

theorem Judging.step {c : Cardinality} {s : Judged D} (h : Judging c s) (st : Step D) :
    Judging c (step checkAll s st) := by
  obtain ⟨e, returned⟩ := s
  cases st with
  | validIf func => exact ⟨h.lower, h.upper, h.flag, h.counted, h.success⟩
  | setTimeout ms => exact ⟨h.lower, h.upper, h.flag, h.counted, h.success⟩
  | occur data =>
    obtain ⟨hv, hf⟩ := occur_spec checkAll data e
    refine ⟨hv.timesLE.trans h.lower, hv.timesGE.trans h.upper, ?_, ?_, ?_⟩
    · exact hf.trans (by rw [h.flag]; exact List.mem_append.symm)
    · intro _
      show 1 ≤ (e.occur checkAll data).1.occurences
      rw [hv.occurences]
      exact Nat.le_add_left 1 _
    · intro hs
      have hle := h.success (hv.status.symm.trans hs)
      show c.lower ≤ ((e.occur checkAll data).1.occurences : Int)
      rw [hv.occurences]
      have : c.lower ≤ (e.occurences : Int) := hle
      push_cast
      omega
  | validate timestamp =>
    obtain ⟨status, errorMessage, heq, hs⟩ := validate_spec checkAll timestamp e
    simp only [Expectation.step, heq]
    refine ⟨h.lower, h.upper, h.flag, h.counted, fun hst => ?_⟩
    rcases (hs hst).1 with hst | hle
    · exact h.success hst
    · exact h.lower ▸ hle

theorem Judging.run {c : Cardinality} {s : Judged D} (h : Judging c s) (steps : List (Step D)) :
    Judging c (run checkAll s steps) := by
  induction steps generalizing s with
  | nil => exact h
  | cons st steps ih => exact ih (h.step st)

/-- A count between the bounds: enough occurrences, one at least, and fewer than the upper bound. -/
def Gap (c : Cardinality) : Prop := ∃ upper, c.upper = some upper ∧ max c.lower 1 < upper

theorem Judging.not_success {c : Cardinality} {s : Judged D} (h : Judging c s)
    (hc : checkAll = some false ∨ ¬ Gap c) (hfail : false ∈ s.2) (timestamp : Int) :
    (s.1.validate checkAll timestamp).status ≠ some .SUCCESS := by
  obtain ⟨status, errorMessage, heq, hs⟩ := validate_spec checkAll timestamp s.1
  rw [heq]
  intro hst
  obtain ⟨hle, hnot, hex⟩ := hs hst
  have hflag := h.flag.mpr hfail
  rcases hc with hc | hc
  · exact hnot ⟨hflag, .inl hc⟩
  cases hu : s.1.timesGE with
  | none => exact hnot ⟨hflag, .inr (.inl hu)⟩
  | some upper =>
    have hlower : c.lower ≤ s.1.occurences := by
      rcases hle with hle | hle
      · exact h.success hle
      · exact h.lower ▸ hle
    have hne : (s.1.occurences : Int) ≠ upper := fun heq => hnot ⟨hflag, .inr (.inr (by rw [hu, heq]))⟩
    have hnex : ¬ upper < (s.1.occurences : Int) := by
      have := hex (h.lower ▸ hlower)
      intro hlt
      rw [exceeded_iff.mpr ⟨upper, hu, hlt⟩] at this
      cases this
    have hone := h.counted hfail
    refine hc ⟨upper, h.upper.symm.trans hu, ?_⟩
    omega

/-! ### The run in the gap -/

theorem run_failing (checkAll : Option Bool) (n : Nat) (e : Expectation Unit)
    (hv : e.verifyData = [fun _ _ => (false, none)])
    (returned : List Bool) :
    Verified { e with occurences := e.occurences + n }
        (run checkAll (e, returned) (List.replicate n (.occur (some ())))).1 ∧
      (0 < n ∨ false ∈ returned →
        false ∈ (run checkAll (e, returned) (List.replicate n (.occur (some ())))).2) := by
  induction n generalizing e returned with
  | zero => exact ⟨.refl e, fun h => h.resolve_left (Nat.lt_irrefl 0)⟩
  | succ n ih =>
    obtain ⟨hver, -⟩ := occur_spec checkAll (some ()) e
    have hret : false ∈ (e.occur checkAll (some ())).2 := by
      simp only [occur, hv, verifyAll]
      split <;> simp
    obtain ⟨hrun, hmem⟩ := ih _ (hver.verifyData.trans hv) (returned ++ (e.occur checkAll (some ())).2)
    rw [List.replicate_succ]
    refine ⟨?_, fun _ => hmem (.inr (List.mem_append_right _ hret))⟩
    refine Verified.trans ?_ hrun
    refine ⟨hver.timesLE, hver.timesGE, hver.ts, hver.timeout, ?_, hver.status, hver.verifyData⟩
    show (e.occur checkAll (some ())).1.occurences + n = e.occurences + (n + 1)
    rw [hver.occurences]
    show e.occurences + 1 + n = e.occurences + (n + 1)
    omega

/-- In the gap an expectation whose occurrences have all failed is given `SUCCESS`. -/
theorem success_of_gap {c : Cardinality} (hc : checkAll ≠ some false) (hg : Gap c) :
    ∃ steps : List (Step Unit),
      false ∈ (run checkAll ((new "" 0).times c, []) steps).2 ∧
        ((run checkAll ((new "" 0).times c, []) steps).1.validate checkAll 0).status = some .SUCCESS := by
  obtain ⟨upper, hu, hlt⟩ := hg
  obtain ⟨n, hn⟩ : ∃ n : Nat, (n : Int) = max c.lower 1 := ⟨(max c.lower 1).toNat, by omega⟩
  let e : Expectation Unit := ((new "" 0).times c).validIf fun _ _ => (false, none)
  obtain ⟨hver, hmem⟩ := run_failing checkAll n e rfl []
  refine ⟨.validIf (fun _ _ => (false, none)) :: List.replicate n (.occur (some ())), ?_, ?_⟩
  · exact hmem (.inl (by omega))
  show ((run checkAll (e, []) (List.replicate n (.occur (some ())))).1.validate checkAll 0).status = _
  generalize (run checkAll (e, []) (List.replicate n (.occur (some ())))).1 = e' at hver
  have hocc : e'.occurences = n := by rw [hver.occurences]; exact Nat.zero_add n
  have hge : e'.timesGE = some upper := hver.timesGE.trans hu
  have hle : e'.timesLE = c.lower := hver.timesLE
  have hnot : ¬ e'.Noticed checkAll := by
    rintro ⟨-, h | h | h⟩
    · exact hc h
    · rw [hge] at h
      cases h
    · rw [hge, Option.some.injEq, hocc] at h
      omega
  have htime : e'.checkTimeout 0 = e' := by
    have hts : e'.ts = 0 := hver.ts
    have hms : e'.timeout = 11500 := hver.timeout
    simp [checkTimeout, hts, hms]
  have hex : ¬ e'.exceeded = true := by
    rw [exceeded_iff]
    rintro ⟨u, hu', hlt'⟩
    rw [hge] at hu'
    cases hu'
    rw [hocc] at hlt'
    omega
  rcases checkValidations_spec checkAll e' with ⟨h, -⟩ | ⟨-, h⟩
  · exact absurd h hnot
  · rw [validate, h, htime, checkTimes, if_pos (by rw [hle, hocc]; omega), if_neg hex, hver.status]
    rfl

/-- A failed validation is never reported as success exactly when validations stop at the first failure or
no count lies between the bounds. -/
theorem failed_validIf_never_success_iff (checkAll : Option Bool) (c : Cardinality) :
    (∀ (D : Type) (name : String) (ts : Int) (steps : List (Step D)) (timestamp : Int),
      false ∈ (run checkAll ((new name ts).times c, []) steps).2 →
        ((run checkAll ((new name ts).times c, []) steps).1.validate checkAll timestamp).status ≠
          some .SUCCESS) ↔ checkAll = some false ∨ ¬ Gap c := by
  constructor
  · intro h
    by_contra hc
    obtain ⟨hc, hg⟩ := not_or.mp hc
    obtain ⟨steps, hfail, hs⟩ := success_of_gap hc (not_not.mp hg)
    exact h Unit "" 0 steps 0 hfail hs
  · intro hc D name ts steps timestamp hfail
    exact ((Judging.start c name ts).run steps).not_success hc hfail timestamp

/-- `Between(1, 3)` and one occurrence that fails its validation, with all validations checked. -/
theorem between_success_after_failure :
    Between 1 3 = .ok ⟨1, some 3⟩ ∧
      false ∈ (run (some true) ((new "e" 0).times ⟨1, some 3⟩, [])
        [.validIf fun _ (_ : Unit) => (false, some "wrong"), .occur (some ())]).2 ∧
      ((run (some true) ((new "e" 0).times ⟨1, some 3⟩, [])
        [.validIf fun _ (_ : Unit) => (false, some "wrong"), .occur (some ())]).1.validate
          (some true) 0).status = some .SUCCESS := by
  refine ⟨rfl, ?_, ?_⟩
  · decide
  · decide

end Expectation

end Atf
