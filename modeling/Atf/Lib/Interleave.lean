import Mathlib.Data.List.Dedup

/-!
# Interleavings

An interleaving of a family of sequences is a list of items tagged with the member they come from,
whose projection to each member is that member's sequence. Members complete in the order of their
last items, which is the order `List.dedup` keeps.
-/

namespace Interleave
variable {ι α : Type} [DecidableEq ι]

/-- The items of member `i`, in order. -/
def proj (i : ι) (s : List (ι × α)) : List α := (s.filter (·.1 = i)).map Prod.snd

@[simp] theorem proj_nil (i : ι) : proj i ([] : List (ι × α)) = [] := rfl

@[simp] theorem proj_cons_self (i : ι) (a : α) (s : List (ι × α)) : proj i ((i, a) :: s) = a :: proj i s := by
  simp [proj]

theorem proj_cons_of_ne {i j : ι} (h : j ≠ i) (a : α) (s : List (ι × α)) : proj i ((j, a) :: s) = proj i s := by
  simp [proj, h]

theorem proj_append (i : ι) (s t : List (ι × α)) : proj i (s ++ t) = proj i s ++ proj i t := by
  simp [proj]

theorem proj_part (i : ι) {s t : List (ι × α)} (h : s <+: t) : proj i s <+: proj i t := by
  obtain ⟨r, rfl⟩ := h
  exact ⟨proj i r, (proj_append i s r).symm⟩

theorem proj_map {β : Type} (f : α → β) (i : ι) (s : List (ι × α)) :
    proj i (s.map fun x => (x.1, f x.2)) = (proj i s).map f := by
  induction s with
  | nil => rfl
  | cons x s ih =>
    obtain ⟨j, a⟩ := x
    rw [List.map_cons]
    by_cases h : j = i
    · subst h
      rw [proj_cons_self, proj_cons_self, ih, List.map_cons]
    · rw [proj_cons_of_ne h, proj_cons_of_ne h, ih]

/-- Items of one member. -/
theorem proj_tagged (i j : ι) (l : List α) : proj i (l.map (j, ·)) = if j = i then l else [] := by
  induction l with
  | nil => simp
  | cons a l ih =>
    rw [List.map_cons]
    by_cases h : j = i
    · subst h
      rw [proj_cons_self, ih, if_pos rfl, if_pos rfl]
    · rw [proj_cons_of_ne h, ih, if_neg h, if_neg h]

theorem proj_eq_nil_iff {i : ι} {s : List (ι × α)} : proj i s = [] ↔ i ∉ s.map Prod.fst := by
  simp only [proj, List.map_eq_nil_iff, List.filter_eq_nil_iff, decide_eq_true_eq, List.mem_map, not_exists,
    not_and]

theorem mem_proj {i : ι} {a : α} {s : List (ι × α)} (h : (i, a) ∈ s) : a ∈ proj i s :=
  List.mem_map.mpr ⟨(i, a), List.mem_filter.mpr ⟨h, by simp⟩, rfl⟩

/-- The members in the order of their last items. -/
def completions (s : List (ι × α)) : List ι := (s.map Prod.fst).dedup

@[simp] theorem completions_nil : completions ([] : List (ι × α)) = [] := rfl

theorem completions_cons_of_more {i : ι} {a : α} {s : List (ι × α)} (h : proj i s ≠ []) :
    completions ((i, a) :: s) = completions s :=
  List.dedup_cons_of_mem (by rwa [ne_eq, proj_eq_nil_iff, not_not] at h)

theorem completions_cons_of_last {i : ι} {a : α} {s : List (ι × α)} (h : proj i s = []) :
    completions ((i, a) :: s) = i :: completions s :=
  List.dedup_cons_of_notMem (proj_eq_nil_iff.mp h)

end Interleave
