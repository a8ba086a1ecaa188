import Atf.Lib.Lua
import Mathlib.Data.List.Nodup

/-!
# Arrays of Lua

An array is a list; positions start at 1. `table.remove(t, pos)` of Lua 5.2 raises unless `pos` is the
length of `t` or lies between 1 and one more than the length, and takes nothing out at that last position.

The second half is arrays of objects that store their own position in a field (`Positions`): appending sets
the field of the new element, and taking one out renumbers the elements behind it.
-/

namespace Lua
variable {α : Type} {xs ys : List α} {pos : Nat}

/-- `t[pos]` -/
def at? (xs : List α) (pos : Nat) : Option α := if pos = 0 then none else xs[pos - 1]?

def tableRemove (xs : List α) (pos : Nat) : LuaM (List α) :=
  if pos = xs.length ∨ 1 ≤ pos ∧ pos ≤ xs.length + 1 then .ok (xs.eraseIdx (pos - 1))
  else .error "bad argument #1 to 'remove' (position out of bounds)"

theorem at?_succ (xs : List α) (i : Nat) : at? xs (i + 1) = xs[i]? := rfl

theorem length_of_tableRemove (h : tableRemove xs pos = .ok ys) : ys.length ≤ xs.length := by
  unfold tableRemove at h
  split at h
  · cases h
    exact List.length_eraseIdx_le xs (pos - 1)
  · cases h

/-- Taking out the element that stands between `xs` and `ys`. -/
theorem tableRemove_middle (xs ys : List α) (a : α) :
    tableRemove (xs ++ a :: ys) (xs.length + 1) = .ok (xs ++ ys) := by
  unfold tableRemove
  rw [if_pos (.inr ⟨by omega, by simp⟩), Nat.add_sub_cancel, List.eraseIdx_append_of_length_le (Nat.le_refl _),
    Nat.sub_self]
  rfl

/-! ### Stored positions -/

section Positions
variable {index index' : α → Option Nat}

/-- Every element of the array stores its position. -/
def Positions (index : α → Option Nat) (xs : List α) : Prop := ∀ i a, xs[i]? = some a → index a = some (i + 1)

namespace Positions

theorem nil (index : α → Option Nat) : Positions index [] := fun _ _ h => by simp at h

theorem congr (h : Positions index xs) (heq : ∀ a ∈ xs, index' a = index a) : Positions index' xs :=
  fun i a ha => (heq a (List.mem_of_getElem? ha)).trans (h i a ha)

theorem nodup (h : Positions index xs) : xs.Nodup := by
  rw [List.nodup_iff_getElem?_ne_getElem?]
  intro i j hij hj heq
  have hi := h i xs[i] (List.getElem?_eq_getElem (by omega))
  have hj' := h j xs[i] (by rw [← heq]; exact List.getElem?_eq_getElem (by omega))
  rw [hi] at hj'
  cases hj'
  omega

/-- An element stands where it says. -/
theorem split (h : Positions index xs) {a : α} (ha : a ∈ xs) :
    ∃ pre post, xs = pre ++ a :: post ∧ index a = some (pre.length + 1) := by
  obtain ⟨pre, post, rfl⟩ := List.append_of_mem ha
  refine ⟨pre, post, rfl, h pre.length a ?_⟩
  rw [List.getElem?_append_right (Nat.le_refl _), Nat.sub_self]
  rfl

end Positions

variable [DecidableEq α]

theorem Positions.concat (h : Positions index xs) {a : α} (ha : a ∉ xs) :
    Positions (Function.update index a (some (xs.length + 1))) (xs ++ [a]) := by
  intro i b hb
  rcases Nat.lt_or_ge i xs.length with hlt | hge
  · rw [List.getElem?_append_left hlt] at hb
    have hba : b ≠ a := by
      rintro rfl
      exact ha (List.mem_of_getElem? hb)
    rw [Function.update_of_ne hba]
    exact h i b hb
  · rw [List.getElem?_append_right hge] at hb
    obtain ⟨hi, rfl⟩ := List.getElem?_eq_some_iff.mp hb
    have : i = xs.length := by
      simp only [List.length_singleton] at hi
      omega
    subst this
    simp

/-- `count` rounds of `for i = pos, #t do t[i].index = i end` -/
def renumber (xs : List α) : Nat → Nat → (α → Option Nat) → LuaM (α → Option Nat)
  | 0, _, index => .ok index
  | count + 1, pos, index =>
    match at? xs pos with
    | none => .error "attempt to index a nil value"
    | some a => renumber xs count (pos + 1) (Function.update index a (some pos))

/-- Renumbering from the end of `pre` on: the elements behind it get their positions, nothing else changes. -/
theorem renumber_eq_ok (pre post : List α) (index : α → Option Nat) (hnd : post.Nodup) :
    ∃ index', renumber (pre ++ post) post.length (pre.length + 1) index = .ok index' ∧
      (∀ a ∉ post, index' a = index a) ∧ ∀ i a, post[i]? = some a → index' a = some (pre.length + i + 1) := by
  induction post generalizing pre index with
  | nil => exact ⟨index, rfl, fun _ _ => rfl, by simp⟩
  | cons b post ih =>
    obtain ⟨hb, hnd⟩ := List.nodup_cons.mp hnd
    have hat : at? (pre ++ b :: post) (pre.length + 1) = some b := by
      rw [at?_succ, List.getElem?_append_right (Nat.le_refl _), Nat.sub_self]
      rfl
    obtain ⟨index', hok, hout, hin⟩ := ih (pre ++ [b]) (Function.update index b (some (pre.length + 1))) hnd
    refine ⟨index', ?_, fun a ha => ?_, fun i a ha => ?_⟩
    · rw [List.length_cons, renumber, hat]
      rw [List.length_append, List.length_singleton, List.append_assoc] at hok
      exact hok
    · rw [List.mem_cons, not_or] at ha
      rw [hout a ha.2, Function.update_of_ne ha.1]
    · rcases i with _ | i
      · cases ha
        rw [hout b hb, Function.update_self]
      · rw [hin i a ha, List.length_append, List.length_singleton]
        congr 1
        omega

/-- Taking out an element and renumbering keeps the positions of the rest. -/
theorem Positions.remove {pre post : List α} {a : α} (h : Positions index (pre ++ a :: post)) :
    ∃ index', renumber (pre ++ post) post.length (pre.length + 1) index = .ok index' ∧
      Positions index' (pre ++ post) ∧ ∀ b ∉ post, index' b = index b := by
  have hnd := h.nodup
  obtain ⟨hpre, hpost, hdisj⟩ := List.nodup_append.mp hnd
  obtain ⟨index', hok, hout, hin⟩ := renumber_eq_ok pre post index (List.nodup_cons.mp hpost).2
  refine ⟨index', hok, fun i b hb => ?_, hout⟩
  rcases Nat.lt_or_ge i pre.length with hlt | hge
  · rw [List.getElem?_append_left hlt] at hb
    have hmem : b ∈ pre := List.mem_of_getElem? hb
    rw [hout b fun hb' => hdisj b hmem b (List.mem_cons_of_mem a hb') rfl]
    exact h i b (by rw [List.getElem?_append_left hlt]; exact hb)
  · rw [List.getElem?_append_right hge] at hb
    rw [hin _ b hb]
    congr 1
    omega

end Positions

end Lua
