import Mathlib.Data.List.AList
import Mathlib.Logic.Function.Basic

/-!
# Tables by reference

A heap of tables: the value of a key is a scalar or a reference to a table. A value is seen through the paths
that lead from it (`valueAt`), and a store is invisible from every value that does not reach the table it changes
(`valueAt_congr`). A value is a tree when one path only leads to each of its tables.
-/

namespace Lua

abbrev Ref := Nat

inductive Val (α : Type)
  | scalar (a : α)
  | table (r : Ref)
deriving DecidableEq

/-- The tables, each with its entries in the order of `pairs`. -/
abbrev Heap (κ α : Type) := Ref → AList fun _ : κ => Val α

namespace Heap

variable {κ α : Type} [DecidableEq κ]

def get (h : Heap κ α) (r : Ref) (k : κ) : Option (Val α) := (h r).lookup k

def set (h : Heap κ α) (r : Ref) (k : κ) (v : Val α) : Heap κ α := Function.update h r ((h r).insert k v)

@[simp] theorem get_set_self (h : Heap κ α) (r : Ref) (k : κ) (v : Val α) : (h.set r k v).get r k = some v := by
  simp [get, set]

theorem get_set_of_ne (h : Heap κ α) (r : Ref) {k k' : κ} (v : Val α) (hk : k' ≠ k) :
    (h.set r k v).get r k' = h.get r k' := by
  simp [get, set, AList.lookup_insert_ne hk]

theorem set_of_ne (h : Heap κ α) {r s : Ref} (k : κ) (v : Val α) (hs : s ≠ r) : h.set r k v s = h s := by
  simp [set, hs]

theorem get_of_mem {h : Heap κ α} {r : Ref} {k : κ} {v : Val α} (he : ⟨k, v⟩ ∈ (h r).entries) :
    h.get r k = some v :=
  AList.mem_lookup_iff.mpr he

theorem get_congr {g h : Heap κ α} {r : Ref} (heq : g r = h r) (k : κ) : g.get r k = h.get r k := by
  rw [get, heq, get]

/-! ### Paths -/

/-- The value at the end of a path. -/
def valueAt (h : Heap κ α) : Val α → List κ → Option (Val α)
  | v, [] => some v
  | .scalar _, _ :: _ => none
  | .table r, k :: p => (h.get r k).bind (h.valueAt · p)

@[simp] theorem valueAt_nil (h : Heap κ α) (v : Val α) : h.valueAt v [] = some v := by
  rcases v with a | r <;> rfl

@[simp] theorem valueAt_scalar_cons (h : Heap κ α) (a : α) (k : κ) (p : List κ) :
    h.valueAt (.scalar a) (k :: p) = none := rfl

theorem valueAt_table_cons (h : Heap κ α) (r : Ref) (k : κ) (p : List κ) :
    h.valueAt (.table r) (k :: p) = (h.get r k).bind (h.valueAt · p) := rfl

theorem valueAt_of_get {h : Heap κ α} {r : Ref} {k : κ} {v : Val α} (hget : h.get r k = some v) (p : List κ) :
    h.valueAt (.table r) (k :: p) = h.valueAt v p := by
  rw [valueAt_table_cons, hget, Option.bind_some]

/-! ### Reach -/

/-- Some path leads from the value to the table. -/
def Reaches (h : Heap κ α) (v : Val α) (r : Ref) : Prop := ∃ p, h.valueAt v p = some (.table r)

theorem reaches_self (h : Heap κ α) (r : Ref) : h.Reaches (.table r) r := ⟨[], valueAt_nil h _⟩

theorem Reaches.entry {h : Heap κ α} {r s : Ref} {k : κ} {v : Val α} (hget : h.get r k = some v)
    (hv : h.Reaches v s) : h.Reaches (.table r) s := by
  obtain ⟨p, hp⟩ := hv
  exact ⟨k :: p, by rw [valueAt_of_get hget, hp]⟩

/-- What two heaps have in common on the tables that a value reaches, they have in common as seen from it. -/
theorem valueAt_congr {g h : Heap κ α} {v : Val α} (heq : ∀ r, h.Reaches v r → g r = h r) (p : List κ) :
    g.valueAt v p = h.valueAt v p := by
  induction p generalizing v with
  | nil => rw [valueAt_nil, valueAt_nil]
  | cons k p ih =>
    rcases v with a | r
    · rfl
    · rw [valueAt_table_cons, valueAt_table_cons, get_congr (heq r (h.reaches_self r))]
      rcases hget : h.get r k with _ | v
      · rfl
      · exact ih fun s hs => heq s (hs.entry hget)

theorem reaches_congr {g h : Heap κ α} {v : Val α} (heq : ∀ r, h.Reaches v r → g r = h r) (r : Ref) :
    g.Reaches v r ↔ h.Reaches v r := by
  simp only [Reaches, valueAt_congr heq]

/-! ### Trees -/

/-- One path only leads to each table. -/
def IsTree (h : Heap κ α) (v : Val α) : Prop :=
  ∀ p q r, h.valueAt v p = some (.table r) → h.valueAt v q = some (.table r) → p = q

/-- Paths to tables are shorter than `n`. -/
def Depth (h : Heap κ α) (v : Val α) (n : Nat) : Prop := ∀ p r, h.valueAt v p = some (.table r) → p.length < n

/-- No table belongs to both values. -/
def Apart (h : Heap κ α) (v w : Val α) : Prop := ∀ r, h.Reaches v r → ¬ h.Reaches w r

theorem IsTree.congr {g h : Heap κ α} {v : Val α} (heq : ∀ r, h.Reaches v r → g r = h r) (hv : h.IsTree v) :
    g.IsTree v := by
  intro p q r hp hq
  rw [valueAt_congr heq] at hp hq
  exact hv p q r hp hq

theorem IsTree.entry {h : Heap κ α} {r : Ref} {k : κ} {v : Val α} (hr : h.IsTree (.table r))
    (hget : h.get r k = some v) : h.IsTree v := by
  intro p q s hp hq
  have heq : k :: p = k :: q := hr _ _ s ((valueAt_of_get hget p).trans hp) ((valueAt_of_get hget q).trans hq)
  exact (List.cons.inj heq).2

/-- A tree does not contain its root again. -/
theorem IsTree.not_reaches {h : Heap κ α} {r : Ref} {k : κ} {v : Val α} (hr : h.IsTree (.table r))
    (hget : h.get r k = some v) : ¬ h.Reaches v r := by
  rintro ⟨p, hp⟩
  have := hr (k :: p) [] r ((valueAt_of_get hget p).trans hp) (valueAt_nil h _)
  exact List.cons_ne_nil _ _ this

/-- The tables behind two keys are different ones. -/
theorem IsTree.entries_apart {h : Heap κ α} {r : Ref} {k k' : κ} {v v' : Val α} (hr : h.IsTree (.table r))
    (hget : h.get r k = some v) (hget' : h.get r k' = some v') (hne : k' ≠ k) : h.Apart v v' := by
  rintro s ⟨p, hp⟩ ⟨q, hq⟩
  have := hr (k :: p) (k' :: q) s ((valueAt_of_get hget p).trans hp) ((valueAt_of_get hget' q).trans hq)
  exact hne (List.cons.inj this).1.symm

theorem Depth.entry {h : Heap κ α} {r : Ref} {k : κ} {v : Val α} {n : Nat} (hr : h.Depth (.table r) (n + 1))
    (hget : h.get r k = some v) : h.Depth v n := by
  intro p s hp
  have := hr (k :: p) s ((valueAt_of_get hget p).trans hp)
  rw [List.length_cons] at this
  omega

theorem Depth.congr {g h : Heap κ α} {v : Val α} {n : Nat} (heq : ∀ r, h.Reaches v r → g r = h r)
    (hv : h.Depth v n) : g.Depth v n := by
  intro p r hp
  rw [valueAt_congr heq] at hp
  exact hv p r hp

theorem Depth.mono {h : Heap κ α} {v : Val α} {m n : Nat} (hv : h.Depth v m) (hle : m ≤ n) : h.Depth v n :=
  fun p r hp => Nat.lt_of_lt_of_le (hv p r hp) hle

theorem Apart.congr {g h : Heap κ α} {v w : Val α} (hv : ∀ r, h.Reaches v r → g r = h r)
    (hw : ∀ r, h.Reaches w r → g r = h r) (hvw : h.Apart v w) : g.Apart v w := by
  intro r hr
  rw [reaches_congr hv] at hr
  rw [reaches_congr hw]
  exact hvw r hr

theorem Apart.entries {h : Heap κ α} {r s : Ref} {k k' : κ} {v w : Val α} (hrs : h.Apart (.table r) (.table s))
    (hv : h.get r k = some v) (hw : h.get s k' = some w) : h.Apart v w :=
  fun t ht ht' => hrs t (ht.entry hv) (ht'.entry hw)

end Heap
end Lua
