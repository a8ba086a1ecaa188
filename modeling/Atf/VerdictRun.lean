import Atf.Verdict
import Mathlib.Data.List.Basic
import Mathlib.Tactic.Tauto

/-!
# The verdict as an automaton over the validate calls

When no validation fails, the status of an expectation depends only on what its validate calls saw: each
one sees a time and a count (`seen`). Of the three tests in `validate` the timeout is made before the
lower bound, so a late call fails the expectation even when the count is reached in that same call; an
earlier call in time that saw enough occurrences has already set `SUCCESS`, which a late call no longer
touches and only a count above the upper bound overwrites.
-/

namespace Atf
open Lua

namespace Expectation
variable {D : Type} {checkAll : Option Bool} {e : Expectation D}

/-! ### What the validate calls saw -/

inductive Input (D : Type)
  | occur (data : Option D)
  | validate (timestamp : Int)

def Input.toStep : Input D → Step D
  | .occur data => .occur data
  | .validate timestamp => .validate timestamp

/-- The expectation after a sequence of occurrences and validate calls. -/
def judge (checkAll : Option Bool) (e : Expectation D) (inputs : List (Input D)) : Expectation D :=
  (run checkAll (e, []) (inputs.map Input.toStep)).1

/-- The time of each validate call and the count it saw, from a count of `n` on. -/
def seen : Nat → List (Input D) → List (Int × Nat)
  | _, [] => []
  | n, .occur _ :: inputs => seen (n + 1) inputs
  | n, .validate timestamp :: inputs => (timestamp, n) :: seen n inputs

/-! ### The reference -/

def Late (e : Expectation D) (v : Int × Nat) : Prop := e.ts + e.timeout < v.1

def Enough (e : Expectation D) (v : Int × Nat) : Prop := e.timesLE ≤ v.2

def Above (e : Expectation D) (v : Int × Nat) : Prop := ∃ hi, e.timesGE = some hi ∧ hi < v.2

instance (e : Expectation D) (v : Int × Nat) : Decidable (e.Late v) := inferInstanceAs (Decidable (_ < _))

instance (e : Expectation D) (v : Int × Nat) : Decidable (e.Enough v) := inferInstanceAs (Decidable (_ ≤ _))

instance (e : Expectation D) (v : Int × Nat) : Decidable (e.Above v) :=
  decidable_of_iff (e.timesGE.any (· < (v.2 : Int)) = true) (by simp [Above, Option.any_eq_true])

/-- One call of the reference automaton. -/
def next (e : Expectation D) (status : Option Status) (v : Int × Nat) : Option Status :=
  if e.Above v then some .FAILED
  else match status with
    | some status => some status
    | none => if e.Late v then some .FAILED else if e.Enough v then some .SUCCESS else none

theorem next_of_above {v : Int × Nat} (ha : e.Above v) (status : Option Status) : e.next status v = some .FAILED :=
  if_pos ha

theorem next_some {v : Int × Nat} (ha : ¬ e.Above v) (status : Status) : e.next (some status) v = some status :=
  if_neg ha

theorem next_none {v : Int × Nat} (ha : ¬ e.Above v) :
    e.next none v = if e.Late v then some .FAILED else if e.Enough v then some .SUCCESS else none :=
  if_neg ha

/-- A call saw too many occurrences, or came too late with no earlier call in time that saw enough. -/
def FailedBy (e : Expectation D) (vs : List (Int × Nat)) : Prop :=
  (∃ v ∈ vs, e.Above v) ∨
    ∃ pre v post, vs = pre ++ v :: post ∧ e.Late v ∧ ∀ u ∈ pre, ¬ e.Late u → ¬ e.Enough u

def PassedBy (e : Expectation D) (vs : List (Int × Nat)) : Prop :=
  (∃ v ∈ vs, ¬ e.Late v ∧ e.Enough v) ∧ ∀ v ∈ vs, ¬ e.Above v

theorem failedBy_concat {vs : List (Int × Nat)} {v : Int × Nat} :
    e.FailedBy (vs ++ [v]) ↔
      e.FailedBy vs ∨ e.Above v ∨ (e.Late v ∧ ∀ u ∈ vs, ¬ e.Late u → ¬ e.Enough u) := by
  constructor
  · rintro (⟨u, hu, ha⟩ | ⟨pre, u, post, heq, hl, hno⟩)
    · rcases List.mem_append.mp hu with hu | hu
      · exact .inl (.inl ⟨u, hu, ha⟩)
      · rw [List.mem_singleton.mp hu] at ha
        exact .inr (.inl ha)
    · -- the late call is the last one, or stands in `vs`
      rcases List.eq_nil_or_concat post with rfl | ⟨post, w, rfl⟩
      · obtain ⟨rfl, rfl⟩ := List.concat_inj.mp (by simpa using heq)
        exact .inr (.inr ⟨hl, hno⟩)
      · rw [List.concat_eq_append, ← List.cons_append, ← List.append_assoc] at heq
        obtain ⟨rfl, -⟩ := List.append_inj' heq rfl
        exact .inl (.inr ⟨pre, u, post, rfl, hl, hno⟩)
  · rintro ((⟨u, hu, ha⟩ | ⟨pre, u, post, rfl, hl, hno⟩) | ha | ⟨hl, hno⟩)
    · exact .inl ⟨u, List.mem_append_left _ hu, ha⟩
    · exact .inr ⟨pre, u, post ++ [v], by simp, hl, hno⟩
    · exact .inl ⟨v, by simp, ha⟩
    · exact .inr ⟨vs, v, [], rfl, hl, hno⟩

theorem passedBy_concat {vs : List (Int × Nat)} {v : Int × Nat} :
    e.PassedBy (vs ++ [v]) ↔
      ((∃ u ∈ vs, ¬ e.Late u ∧ e.Enough u) ∨ ¬ e.Late v ∧ e.Enough v) ∧
        (∀ u ∈ vs, ¬ e.Above u) ∧ ¬ e.Above v := by
  simp only [PassedBy, List.mem_append, List.mem_singleton, or_imp, forall_and, forall_eq, exists_eq_left,
    or_and_right, exists_or]

/-- Times that do not decrease keep the calls in time before the late ones. -/
theorem not_failedBy_of_passedBy {vs : List (Int × Nat)} (hmono : vs.Pairwise fun u v => u.1 ≤ v.1)
    (h : e.PassedBy vs) : ¬ e.FailedBy vs := by
  obtain ⟨⟨w, hw, hin, hen⟩, hno⟩ := h
  rintro (⟨u, hu, ha⟩ | ⟨pre, u, post, rfl, hl, hpre⟩)
  · exact hno u hu ha
  · rcases List.mem_append.mp hw with hw | hw
    · exact hpre w hw hin hen
    rcases List.mem_cons.mp hw with rfl | hw
    · exact hin hl
    · have hle : u.1 ≤ w.1 := (List.pairwise_cons.mp (List.pairwise_append.mp hmono).2.1).1 w hw
      exact hin (lt_of_lt_of_le hl hle)

/-! ### One step -/

/-- All functions given to `ValidIf` pass. -/
def Passing (e : Expectation D) : Prop := ∀ func ∈ e.verifyData, ∀ data x, (func data x).1 = true

theorem verifyAll_passing (data : D) (funcs : List (Validation D)) (h : ∀ func ∈ funcs, ∀ d x, (func d x).1 = true)
    (e : Expectation D) : false ∉ (verifyAll checkAll data funcs e).2 := by
  induction funcs generalizing e with
  | nil => simp [verifyAll]
  | cons func funcs ih =>
    have hf := h func List.mem_cons_self e.toExpectationData data
    simp only [verifyAll, hf]
    split
    · simp
    · simpa using ih (fun f hf => h f (List.mem_cons_of_mem _ hf)) _

theorem occur_passing (h : e.Passing) (data : Option D) : false ∉ (e.occur checkAll data).2 := by
  cases data with
  | none => simp [occur]
  | some data => exact verifyAll_passing data e.verifyData h _

theorem checkTimeout_status (t : Int) (n : Nat) (hs : e.status = none) :
    (e.checkTimeout t).status = if e.Late (t, n) then some .FAILED else none := by
  have hlate : t - e.ts > e.timeout ↔ e.Late (t, n) := by
    show e.timeout < t - e.ts ↔ e.ts + e.timeout < t
    omega
  simp only [checkTimeout, hs, beq_self_eq_true, Bool.true_and, decide_eq_true_eq, hlate]
  split
  · rfl
  · exact hs

theorem checkTimeout_of_status {status : Status} (t : Int) (hs : e.status = some status) : e.checkTimeout t = e := by
  simp [checkTimeout, hs]

theorem checkTimes_above (t : Int) (hb : ∀ hi, e.timesGE = some hi → e.timesLE ≤ hi)
    (ha : e.Above (t, e.occurences)) : e.checkTimes.status = some .FAILED := by
  obtain ⟨hi, hge, hlt⟩ := ha
  have hle : (e.occurences : Int) ≥ e.timesLE := (hb hi hge).trans hlt.le
  have hx : e.exceeded = true := exceeded_iff.mpr ⟨hi, hge, hlt⟩
  rw [checkTimes, if_pos hle, if_pos hx]

theorem checkTimes_not_above (t : Int) (ha : ¬ e.Above (t, e.occurences)) :
    e.checkTimes.status =
      if e.status = none ∧ e.Enough (t, e.occurences) then some .SUCCESS else e.status := by
  have hx : e.exceeded = false := by
    rw [← Bool.not_eq_true, exceeded_iff]
    exact ha
  have hle : (e.occurences : Int) ≥ e.timesLE ↔ e.Enough (t, e.occurences) := Iff.rfl
  simp only [checkTimes, hx, hle, Bool.false_eq_true, ↓reduceIte, beq_iff_eq]
  by_cases hen : e.Enough (t, e.occurences)
  · simp only [hen, ↓reduceIte, and_true]
    split <;> rfl
  · simp only [hen, ↓reduceIte, and_false]

/-- When no validation has failed, `validate` is a step of the automaton. -/
theorem validate_status (hflag : e.isAtLeastOneFail = false) (hb : ∀ hi, e.timesGE = some hi → e.timesLE ≤ hi)
    (t : Int) : (e.validate checkAll t).status = e.next e.status (t, e.occurences) := by
  have hval : e.checkValidations checkAll = e := by simp [checkValidations, hflag]
  obtain ⟨s, m, hto, -⟩ := checkTimeout_spec t e
  rw [validate, hval]
  by_cases ha : e.Above (t, e.occurences)
  · -- the last test applies, whatever the timeout did
    rw [next_of_above ha, hto]
    exact checkTimes_above t hb ha
  cases hs : e.status with
  | some status =>
    rw [next_some ha, checkTimeout_of_status t hs, checkTimes_not_above t ha, hs]
    rfl
  | none =>
    rw [next_none ha]
    have hst := checkTimeout_status t e.occurences hs
    rw [hto] at hst ⊢
    refine (checkTimes_not_above (e := { e with status := s, errorMessage := m }) t ha).trans ?_
    show (if s = none ∧ e.Enough (t, e.occurences) then _ else s) = _
    rw [show s = _ from hst]
    by_cases hl : e.Late (t, e.occurences)
    · simp [hl]
    · simp [hl]

/-! ### Runs -/

/-- `e'` is `e` after validate calls that saw `vs`, now with `n` occurrences. -/
structure Tracks (e e' : Expectation D) (vs : List (Int × Nat)) (n : Nat) : Prop where
  timesLE : e'.timesLE = e.timesLE
  timesGE : e'.timesGE = e.timesGE
  ts : e'.ts = e.ts
  timeout : e'.timeout = e.timeout
  verifyData : e'.verifyData = e.verifyData
  flag : e'.isAtLeastOneFail = false
  occurences : e'.occurences = n
  failed : e'.status = some .FAILED ↔ e.FailedBy vs
  passed : e'.status = some .SUCCESS ↔ e.PassedBy vs

namespace Tracks
variable {e' : Expectation D} {vs : List (Int × Nat)} {n : Nat}

theorem occur (h : Tracks e e' vs n) (hp : e.Passing) (data : Option D) :
    Tracks e (e'.occur checkAll data).1 vs (n + 1) := by
  obtain ⟨hv, hf⟩ := occur_spec checkAll data e'
  have hp' : e'.Passing := fun func hfunc => hp func (h.verifyData ▸ hfunc)
  refine ⟨hv.timesLE.trans h.timesLE, hv.timesGE.trans h.timesGE, hv.ts.trans h.ts, hv.timeout.trans h.timeout,
    hv.verifyData.trans h.verifyData, ?_, ?_, ?_, ?_⟩
  · rw [← Bool.not_eq_true, hf, h.flag]
    rintro (h' | h')
    · exact absurd h' Bool.false_ne_true
    · exact occur_passing hp' data h'
  · exact hv.occurences.trans (congrArg (· + 1) h.occurences)
  · rw [hv.status]
    exact h.failed
  · rw [hv.status]
    exact h.passed

theorem next_eq (h : Tracks e e' vs n) (s : Option Status) (v : Int × Nat) : e'.next s v = e.next s v := by
  have ha : e'.Above v ↔ e.Above v := by rw [Above, Above, h.timesGE]
  have hl : e'.Late v ↔ e.Late v := by rw [Late, Late, h.ts, h.timeout]
  have hen : e'.Enough v ↔ e.Enough v := by rw [Enough, Enough, h.timesLE]
  simp only [next, ha, hl, hen]

/-- While the status is unset, no call saw too many occurrences and none in time saw enough. -/
theorem unset (h : Tracks e e' vs n) (hs : e'.status = none) :
    (∀ u ∈ vs, ¬ e.Above u) ∧ (∀ u ∈ vs, ¬ e.Late u → ¬ e.Enough u) ∧ ¬ e.FailedBy vs := by
  have hf : ¬ e.FailedBy vs := fun hf => by
    rw [h.failed.mpr hf] at hs
    cases hs
  have hp : ¬ e.PassedBy vs := fun hp => by
    rw [h.passed.mpr hp] at hs
    cases hs
  have ha : ∀ u ∈ vs, ¬ e.Above u := fun u hu ha => hf (.inl ⟨u, hu, ha⟩)
  exact ⟨ha, fun u hu hl hen => hp ⟨⟨u, hu, hl, hen⟩, ha⟩, hf⟩

theorem next_failed (h : Tracks e e' vs n) {v : Int × Nat} :
    e.next e'.status v = some .FAILED ↔ e.FailedBy (vs ++ [v]) := by
  rw [failedBy_concat]
  by_cases ha : e.Above v
  · rw [next_of_above ha]
    exact iff_of_true rfl (.inr (.inl ha))
  rcases hs : e'.status with _ | _ | _
  · obtain ⟨-, hno, hf⟩ := h.unset hs
    rw [next_none ha]
    by_cases hl : e.Late v
    · rw [if_pos hl]
      exact iff_of_true rfl (.inr (.inr ⟨hl, hno⟩))
    · simp only [hl, hf, ha, false_and, or_false, iff_false, ↓reduceIte]
      split <;> simp
  · exact iff_of_true (next_some ha _) (.inl (h.failed.mp hs))
  · rw [next_some ha]
    refine iff_of_false nofun ?_
    obtain ⟨⟨u, hu, hin, hen⟩, -⟩ := h.passed.mp hs
    rintro (hf | ha' | ⟨-, hno⟩)
    · rw [h.failed.mpr hf] at hs
      cases hs
    · exact ha ha'
    · exact hno u hu hin hen

theorem next_passed (h : Tracks e e' vs n) {v : Int × Nat}
    (hmono : (vs ++ [v]).Pairwise fun u v => u.1 ≤ v.1) :
    e.next e'.status v = some .SUCCESS ↔ e.PassedBy (vs ++ [v]) := by
  have hdisj := not_failedBy_of_passedBy (e := e) hmono
  rw [failedBy_concat, passedBy_concat] at hdisj
  rw [passedBy_concat]
  by_cases ha : e.Above v
  · rw [next_of_above ha]
    exact iff_of_false nofun fun hp => hp.2.2 ha
  rcases hs : e'.status with _ | _ | _
  · obtain ⟨habove, hno, hf⟩ := h.unset hs
    have hnone : ¬ ∃ u ∈ vs, ¬ e.Late u ∧ e.Enough u := fun ⟨u, hu, hin, hen⟩ => hno u hu hin hen
    rw [next_none ha]
    simp only [hnone, ha, false_or, not_false_eq_true, and_true]
    by_cases hl : e.Late v
    · simp [hl]
    · by_cases hen : e.Enough v
      · simpa [hl, hen] using habove
      · simp [hl, hen]
  · rw [next_some ha]
    exact iff_of_false nofun fun hp => hdisj hp (.inl (h.failed.mp hs))
  · obtain ⟨hex, hno⟩ := h.passed.mp hs
    exact iff_of_true (next_some ha _) ⟨.inl hex, hno, ha⟩

theorem validate (h : Tracks e e' vs n) (hb : ∀ hi, e.timesGE = some hi → e.timesLE ≤ hi) (t : Int)
    (hmono : (vs ++ [(t, n)]).Pairwise fun u v => u.1 ≤ v.1) :
    Tracks e (e'.validate checkAll t) (vs ++ [(t, n)]) n := by
  have hb' : ∀ hi, e'.timesGE = some hi → e'.timesLE ≤ hi := fun hi hge => h.timesLE ▸ hb hi (h.timesGE ▸ hge)
  have hst : (e'.validate checkAll t).status = e'.next e'.status (t, e'.occurences) := validate_status h.flag hb' t
  rw [h.occurences, h.next_eq] at hst
  obtain ⟨s, m, heq, -⟩ := validate_spec checkAll t e'
  rw [heq] at hst ⊢
  refine ⟨h.timesLE, h.timesGE, h.ts, h.timeout, h.verifyData, h.flag, h.occurences, ?_, ?_⟩
  · show s = _ ↔ _
    rw [show s = _ from hst, h.next_failed]
  · show s = _ ↔ _
    rw [show s = _ from hst, h.next_passed hmono]

/-- By induction over the inputs, with what was seen before them. -/
theorem run (hp : e.Passing) (hb : ∀ hi, e.timesGE = some hi → e.timesLE ≤ hi) (inputs : List (Input D))
    {s : Judged D} (h : Tracks e s.1 vs n) (hmono : (vs ++ seen n inputs).Pairwise fun u v => u.1 ≤ v.1) :
    ∃ n', Tracks e (run checkAll s (inputs.map Input.toStep)).1 (vs ++ seen n inputs) n' := by
  induction inputs generalizing s vs n with
  | nil => exact ⟨n, by rw [seen, List.append_nil]; exact h⟩
  | cons input inputs ih =>
    cases input with
    | occur data => exact ih (h.occur hp data) hmono
    | validate t =>
      rw [seen, List.append_cons] at hmono ⊢
      exact ih (h.validate hb t (hmono.sublist (List.sublist_append_left _ _))) hmono

end Tracks

theorem seen_prefix {pre inputs : List (Input D)} (h : pre <+: inputs) (n : Nat) : seen n pre <+: seen n inputs := by
  obtain ⟨more, rfl⟩ := h
  induction pre generalizing n with
  | nil => exact List.nil_prefix
  | cons input pre ih =>
    cases input with
    | occur data => exact ih (n + 1)
    | validate t => exact List.cons_prefix_cons.mpr ⟨rfl, ih n⟩

theorem FailedBy.mono {vs ws : List (Int × Nat)} (h : e.FailedBy vs) (hw : vs <+: ws) : e.FailedBy ws := by
  obtain ⟨more, rfl⟩ := hw
  rcases h with ⟨v, hv, ha⟩ | ⟨pre, v, post, rfl, hl, hno⟩
  · exact .inl ⟨v, List.mem_append_left _ hv, ha⟩
  · exact .inr ⟨pre, v, post ++ more, by simp, hl, hno⟩

/-- An expectation that has not occurred or been judged yet. -/
structure Fresh (e : Expectation D) : Prop where
  status : e.status = none
  occurences : e.occurences = 0
  flag : e.isAtLeastOneFail = false

theorem Fresh.tracks (h : e.Fresh) : Tracks e e [] 0 := by
  refine ⟨rfl, rfl, rfl, rfl, rfl, h.flag, h.occurences, ?_, ?_⟩
  · rw [h.status]
    refine iff_of_false nofun ?_
    rintro (⟨v, hv, -⟩ | ⟨pre, v, post, heq, -⟩)
    · cases hv
    · exact absurd heq.symm (by simp)
  · rw [h.status]
    exact iff_of_false nofun fun ⟨⟨v, hv, _⟩, _⟩ => by cases hv

/-- The status of an expectation is the verdict of the reference on what its validate calls saw. -/
theorem status_iff_reference (checkAll : Option Bool) (e : Expectation D) (h : e.Fresh) (hp : e.Passing)
    (hb : ∀ hi, e.timesGE = some hi → e.timesLE ≤ hi) (inputs : List (Input D))
    (hmono : (seen 0 inputs).Pairwise fun u v => u.1 ≤ v.1) :
    ((e.judge checkAll inputs).status = some .FAILED ↔ e.FailedBy (seen 0 inputs)) ∧
      ((e.judge checkAll inputs).status = some .SUCCESS ↔ e.PassedBy (seen 0 inputs)) ∧
      ((e.judge checkAll inputs).status = none ↔ ¬ e.FailedBy (seen 0 inputs) ∧ ¬ e.PassedBy (seen 0 inputs)) ∧
      ∀ earlier, earlier <+: inputs → (e.judge checkAll earlier).status = some .FAILED →
        (e.judge checkAll inputs).status = some .FAILED := by
  obtain ⟨n, ht⟩ : ∃ n, Tracks e (e.judge checkAll inputs) (seen 0 inputs) n :=
    Tracks.run hp hb inputs (s := (e, [])) h.tracks hmono
  have hf : (e.judge checkAll inputs).status = some .FAILED ↔ e.FailedBy (seen 0 inputs) := ht.failed
  have hs : (e.judge checkAll inputs).status = some .SUCCESS ↔ e.PassedBy (seen 0 inputs) := ht.passed
  refine ⟨hf, hs, ?_, fun earlier hpre hfail => ?_⟩
  · rw [← hf, ← hs]
    rcases (e.judge checkAll inputs).status with _ | _ | _
    · exact iff_of_true rfl ⟨nofun, nofun⟩
    · exact iff_of_false nofun fun hn => hn.1 rfl
    · exact iff_of_false nofun fun hn => hn.2 rfl
  · have hseen := seen_prefix hpre 0
    obtain ⟨m, ht'⟩ : ∃ m, Tracks e (e.judge checkAll earlier) (seen 0 earlier) m :=
      Tracks.run hp hb earlier (s := (e, [])) h.tracks (hmono.sublist hseen.sublist)
    exact hf.mpr ((ht'.failed.mp hfail).mono hseen)

/-- A call that comes too late fails the expectation, also when it is the first to see the occurrence. -/
theorem status_late_occurrence :
    (((new "e" 0).validIf fun _ _ => (true, none) : Expectation Unit).judge none
      [.validate 100, .occur (some ()), .validate 11501]).status = some .FAILED := by
  have hfresh : Fresh ((new "e" 0).validIf fun _ _ => (true, none) : Expectation Unit) := ⟨rfl, rfl, rfl⟩
  refine (status_iff_reference none _ hfresh ?_ ?_ _ ?_).1.mpr ?_
  · rintro func (_ | ⟨_, ⟨⟩⟩) data x
    rfl
  · rintro hi ⟨⟩
    exact le_refl _
  · show List.Pairwise _ [(100, 0), (11501, 1)]
    simp
  · refine .inr ⟨[(100, 0)], (11501, 1), [], rfl, by decide, ?_⟩
    rintro u (_ | ⟨_, ⟨⟩⟩) -
    decide

end Expectation

end Atf
