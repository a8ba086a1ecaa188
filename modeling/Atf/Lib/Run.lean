/-!
# Runs of a machine

A machine takes events one at a time. `Reaches` is for a machine whose steps may raise, which ends the
run: the states between two events, over every sequence of events that the environment is allowed
(`guard` may look at the state the event finds). For a machine whose steps always succeed a run is a
`foldl`, and `Allows` says that every event of the run was allowed in the state it found; when a step
keeps a property exactly if it is allowed, so does the run (`forall_prefix_iff`). A machine whose steps leave
something open is a relation, and a run of it lists each event with the state it led to (`Trace`).
-/

namespace Run
variable {σ ε α : Type} (step : σ → ε → Except α σ) (guard : σ → ε → Prop)

inductive Reaches (s₀ : σ) : σ → Prop
  | start : Reaches s₀ s₀
  | step {s s' : σ} {e : ε} : Reaches s₀ s → guard s e → step s e = .ok s' → Reaches s₀ s'

variable {step guard}

/-- What holds at the start and is kept by every step holds in every state reached. -/
theorem Reaches.invariant {I : σ → Prop} {s₀ s : σ} (h : Reaches step guard s₀ s) (h₀ : I s₀)
    (hstep : ∀ s e s', I s → guard s e → step s e = .ok s' → I s') : I s := by
  induction h with
  | start => exact h₀
  | step _ hg hs ih => exact hstep _ _ _ ih hg hs

theorem Reaches.mono {guard' : σ → ε → Prop} {s₀ s : σ} (h : Reaches step guard s₀ s)
    (himp : ∀ s e, guard s e → guard' s e) : Reaches step guard' s₀ s := by
  induction h with
  | start => exact .start
  | step _ hg hs ih => exact ih.step (himp _ _ hg) hs

/-- The run over these events, if the environment is allowed each of them and no step raises. -/
def exec (step : σ → ε → Except α σ) (guard : σ → ε → Prop) [∀ s e, Decidable (guard s e)] :
    σ → List ε → Option σ
  | s, [] => some s
  | s, e :: es =>
    if guard s e then
      match step s e with
      | .ok s' => exec step guard s' es
      | .error _ => none
    else none

theorem Reaches.of_exec [∀ s e, Decidable (guard s e)] {es : List ε} {s₀ s s' : σ}
    (h : Reaches step guard s₀ s) (hs : exec step guard s es = some s') : Reaches step guard s₀ s' := by
  induction es generalizing s with
  | nil => cases hs; exact h
  | cons e es ih =>
    unfold exec at hs
    split at hs
    · rename_i hg
      split at hs
      · rename_i s₁ hok
        exact ih (h.step hg hok) hs
      · cases hs
    · cases hs

/-! ### Steps that always succeed -/

section Total
variable {σ ε : Type} (step : σ → ε → σ) (allowed : σ → ε → Prop)

/-- Every event is allowed in the state it finds. -/
def Allows : σ → List ε → Prop
  | _, [] => True
  | s, e :: es => allowed s e ∧ Allows (step s e) es

variable {step allowed} {I : σ → Prop} {s : σ}

theorem Allows.of_prefix {es events : List ε} (hes : es <+: events) (h : Allows step allowed s events) :
    Allows step allowed s es := by
  induction es generalizing s events with
  | nil => trivial
  | cons e es ih =>
    cases events with
    | nil => simp at hes
    | cons e' events =>
      obtain ⟨rfl, htail⟩ := List.cons_prefix_cons.mp hes
      exact ⟨h.1, ih htail h.2⟩

theorem Allows.foldl {events : List ε} (h : Allows step allowed s events) (h₀ : I s)
    (hstep : ∀ s e, I s → allowed s e → I (step s e)) : I (events.foldl step s) := by
  induction events generalizing s with
  | nil => exact h₀
  | cons e events ih => exact ih h.2 (hstep s e h₀ h.1)

/-- The property holds in every state of the run exactly if every event was allowed. -/
theorem forall_prefix_iff (hstep : ∀ s e, I s → (I (step s e) ↔ allowed s e)) (h₀ : I s) (events : List ε) :
    (∀ es, es <+: events → I (es.foldl step s)) ↔ Allows step allowed s events := by
  constructor
  · intro hall
    induction events generalizing s with
    | nil => trivial
    | cons e events ih =>
      have h1 : I (step s e) := hall [e] ⟨events, rfl⟩
      refine ⟨(hstep s e h₀).mp h1, ih h1 fun es hes => ?_⟩
      exact hall (e :: es) (List.cons_prefix_cons.mpr ⟨rfl, hes⟩)
  · intro h es hes
    exact (h.of_prefix hes).foldl h₀ fun s e hs ha => (hstep s e hs).mpr ha

end Total

/-! ### Steps that leave something open -/

section Relation
variable {σ ε : Type} {step : σ → ε → σ → Prop} {allowed : σ → ε → Prop}

inductive Trace (step : σ → ε → σ → Prop) : σ → List (ε × σ) → Prop
  | nil {s : σ} : Trace step s []
  | cons {s s' : σ} {e : ε} {t : List (ε × σ)} : step s e s' → Trace step s' t → Trace step s ((e, s') :: t)

/-- What holds at the start and is kept by every step holds in every state of a run. -/
theorem Trace.invariant {I : σ → Prop} (hstep : ∀ s e s', I s → step s e s' → I s') {s : σ} {t : List (ε × σ)}
    (h : Trace step s t) (h₀ : I s) : ∀ p ∈ t, I p.2 := by
  induction h with
  | nil => exact List.forall_mem_nil _
  | cons hs _ ih =>
    have h₁ := hstep _ _ _ h₀ hs
    exact List.forall_mem_cons.mpr ⟨h₁, ih h₁⟩

/-- Every event is allowed in the state it finds. -/
def TraceAllows (allowed : σ → ε → Prop) : σ → List (ε × σ) → Prop
  | _, [] => True
  | s, (e, s') :: t => allowed s e ∧ TraceAllows allowed s' t

/-- A property of the events and the states they lead to holds along a run exactly if every event was allowed. -/
theorem Trace.forall_iff {I : σ → Prop} {P : ε → σ → Prop} (hI : ∀ e s, P e s → I s)
    (hstep : ∀ s e s', I s → step s e s' → (P e s' ↔ allowed s e)) {s : σ} {t : List (ε × σ)}
    (h : Trace step s t) (h₀ : I s) : (∀ p ∈ t, P p.1 p.2) ↔ TraceAllows allowed s t := by
  induction h with
  | nil => exact iff_of_true (List.forall_mem_nil _) trivial
  | cons hs _ ih =>
    rw [List.forall_mem_cons, hstep _ _ _ h₀ hs]
    refine and_congr_right fun ha => ih ?_
    exact hI _ _ ((hstep _ _ _ h₀ hs).mpr ha)

/-- A run of a machine that is one way to take the steps. -/
def trace (next : σ → ε → σ) : σ → List ε → List (ε × σ)
  | _, [] => []
  | s, e :: es => (e, next s e) :: trace next (next s e) es

theorem Trace.of_next {next : σ → ε → σ} (h : ∀ s e, step s e (next s e)) (s : σ) (es : List ε) :
    Trace step s (trace next s es) := by
  induction es generalizing s with
  | nil => exact .nil
  | cons e es ih => exact .cons (h s e) (ih (next s e))

end Relation

end Run
