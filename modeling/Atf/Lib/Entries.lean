import Mathlib.Data.List.Nodup
import Mathlib.Data.List.Perm.Basic

/-!
# Tables that are enumerated

`Entries` is a finite table with the list of its entries, no key twice. What `pairs` promises about the order
in which it visits them is that each entry is visited once: `Pairs` is any such order, and a result that
holds for every `Pairs` does not rest on the one an interpreter happens to take.
-/

namespace Lua

structure Entries (κ ν : Type) where
  toList : List (κ × ν)
  nodup : (toList.map Prod.fst).Nodup

namespace Entries
variable {κ ν : Type}

def empty : Entries κ ν := ⟨[], List.nodup_nil⟩

/-- Every value replaced, the keys kept. -/
def map (t : Entries κ ν) (f : ν → ν) : Entries κ ν :=
  ⟨t.toList.map fun p => (p.1, f p.2), by
    have h : (t.toList.map fun p => (p.1, f p.2)).map Prod.fst = t.toList.map Prod.fst := by
      rw [List.map_map]
      rfl
    rw [h]
    exact t.nodup⟩

variable [DecidableEq κ]

def get (t : Entries κ ν) (k : κ) : Option ν := t.toList.lookup k

def erase (t : Entries κ ν) (k : κ) : Entries κ ν :=
  ⟨t.toList.filter (·.1 ≠ k), t.nodup.sublist (List.filter_sublist.map Prod.fst)⟩

def set (t : Entries κ ν) (k : κ) (v : ν) : Entries κ ν :=
  ⟨(t.erase k).toList ++ [(k, v)], by
    rw [List.map_append, List.nodup_append]
    refine ⟨(t.erase k).nodup, List.nodup_singleton k, ?_⟩
    intro k' hk' k'' hk'' heq
    obtain ⟨p, hp, rfl⟩ := List.mem_map.mp hk'
    have hne : p.1 ≠ k := of_decide_eq_true (List.mem_filter.mp hp).2
    exact hne (heq.trans (List.mem_singleton.mp hk''))⟩

theorem get_iff {t : Entries κ ν} {k : κ} {v : ν} : t.get k = some v ↔ (k, v) ∈ t.toList := by
  obtain ⟨l, hl⟩ := t
  show l.lookup k = some v ↔ (k, v) ∈ l
  induction l with
  | nil => simp
  | cons p l ih =>
    obtain ⟨hp, hl⟩ := List.nodup_cons.mp hl
    rw [List.lookup_cons, List.mem_cons]
    by_cases hk : k = p.1
    · have hnot : (k, v) ∉ l := fun h => hp (List.mem_map.mpr ⟨(k, v), h, hk⟩)
      obtain ⟨k', v'⟩ := p
      subst hk
      simp [hnot, eq_comm]
    · have hne : (k, v) ≠ p := fun h => hk (congrArg Prod.fst h)
      have hbeq : (k == p.1) = false := beq_false_of_ne hk
      simp only [hbeq, ih hl, hne, false_or]

theorem get_eq_none_iff {t : Entries κ ν} {k : κ} : t.get k = none ↔ ∀ v, (k, v) ∉ t.toList := by
  rw [Option.eq_none_iff_forall_ne_some]
  exact forall_congr' fun v => not_congr get_iff

theorem get_ext {t : Entries κ ν} {k : κ} {o : Option ν} (h : ∀ v, (k, v) ∈ t.toList ↔ o = some v) :
    t.get k = o :=
  Option.ext fun v => get_iff.trans (h v)

theorem get_cons {p : κ × ν} {l : List (κ × ν)} (hnodup : ((p :: l).map Prod.fst).Nodup) (k : κ) :
    (mk (p :: l) hnodup).get k = if k = p.1 then some p.2 else (mk l (List.nodup_cons.mp hnodup).2).get k := by
  rw [get, List.lookup_cons]
  by_cases hk : k = p.1
  · simp [hk]
  · simp only [beq_false_of_ne hk, if_neg hk, get]

@[simp] theorem get_empty (k : κ) : (empty : Entries κ ν).get k = none := rfl

theorem mem_erase {t : Entries κ ν} {k : κ} {p : κ × ν} :
    p ∈ (t.erase k).toList ↔ p ∈ t.toList ∧ p.1 ≠ k := by
  simp [erase]

theorem mem_set {t : Entries κ ν} {k : κ} {v : ν} {p : κ × ν} :
    p ∈ (t.set k v).toList ↔ p = (k, v) ∨ (p ∈ t.toList ∧ p.1 ≠ k) := by
  rw [set, List.mem_append, List.mem_singleton, mem_erase, or_comm]

theorem get_erase (t : Entries κ ν) (k k' : κ) : (t.erase k).get k' = if k' = k then none else t.get k' := by
  refine get_ext fun v => ?_
  rw [mem_erase, ← get_iff]
  by_cases hk : k' = k <;> simp [hk]

theorem get_set (t : Entries κ ν) (k k' : κ) (v : ν) :
    (t.set k v).get k' = if k' = k then some v else t.get k' := by
  refine get_ext fun v' => ?_
  rw [mem_set, ← get_iff]
  by_cases hk : k' = k
  · simp [hk, eq_comm]
  · simp [hk]

theorem get_map (t : Entries κ ν) (f : ν → ν) (k : κ) : (t.map f).get k = (t.get k).map f := by
  refine get_ext fun v => ?_
  simp only [map, List.mem_map, Prod.mk.injEq, Option.map_eq_some_iff, get_iff]
  constructor
  · rintro ⟨⟨k', v'⟩, hmem, rfl, rfl⟩
    exact ⟨v', hmem, rfl⟩
  · rintro ⟨v', hmem, rfl⟩
    exact ⟨(k, v'), hmem, rfl, rfl⟩

end Entries

/-- An order in which `pairs` visits tables. -/
structure Pairs (κ ν : Type) where
  visit : Entries κ ν → List (κ × ν)
  perm : ∀ t, (visit t).Perm t.toList

namespace Pairs
variable {κ ν : Type}

def inOrder : Pairs κ ν := ⟨Entries.toList, fun _ => .refl _⟩

theorem mem_visit (order : Pairs κ ν) {t : Entries κ ν} {p : κ × ν} : p ∈ order.visit t ↔ p ∈ t.toList :=
  (order.perm t).mem_iff

/-- An order that begins with this entry wherever it is present. -/
def first [DecidableEq κ] [DecidableEq ν] (p : κ × ν) : Pairs κ ν where
  visit t := if p ∈ t.toList then p :: t.toList.erase p else t.toList
  perm t := by
    split
    · rename_i h
      exact (List.perm_cons_erase h).symm
    · exact .refl _

theorem visit_first [DecidableEq κ] [DecidableEq ν] {p : κ × ν} {t : Entries κ ν} (h : p ∈ t.toList) :
    (first p).visit t = p :: t.toList.erase p := if_pos h

end Pairs

end Lua
