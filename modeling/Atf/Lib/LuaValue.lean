import Atf.Lib.Lua
import Mathlib.Data.List.Nodup
import Mathlib.Data.List.Perm.Subperm
import Mathlib.Data.Rat.Defs

/-!
# Lua values as trees

The values that JSON texts decode to and that scripts write as literals: a table is the list of its
entries, in the order in which `pairs` visits them. A number is a double that is neither infinite nor NaN,
so a rational; a string is compared, joined and measured, but its bytes are not looked at.
-/

namespace Lua

inductive Key
  | int (i : Int)
  | str (s : String)
deriving DecidableEq, Repr

inductive Value
  | nil
  | bool (b : Bool)
  | num (n : Rat)
  | str (s : String)
  | table (entries : List (Key × Value))
deriving Repr

/-- What the language's library does with numbers and tables, and no program defines. -/
structure ValueLib where
  -- `tostring(n)`, which is also the conversion of a number operand of `..`
  numberToString : Rat → String
  -- `json.isArray` of a table with these entries
  isArray : List (Key × Value) → Bool

def Key.toString : Key → String
  | .int i => ToString.toString i
  | .str s => s

namespace Value

def type : Value → String
  | .nil => "nil"
  | .bool _ => "boolean"
  | .num _ => "number"
  | .str _ => "string"
  | .table _ => "table"

/-- `tostring(v)`; no table is printed, so its address is not modelled. -/
def tostring (lib : ValueLib) : Value → String
  | .nil => "nil"
  | .bool b => ToString.toString b
  | .num n => lib.numberToString n
  | .str s => s
  | .table _ => "table"

/-- `a == b` for values that are not both tables; tables are compared by identity. -/
def rawEqual : Value → Value → Bool
  | .nil, .nil => true
  | .bool a, .bool b => a == b
  | .num a, .num b => a == b
  | .str a, .str b => a == b
  | _, _ => false

end Value

def index (entries : Dict Key Value) (k : Key) : Value := (entries.get k).getD .nil

/-- `#t`, the first border: the entries `1, 2, ..` up to the first that is missing. -/
def border (entries : Dict Key Value) : Nat :=
  ((List.range entries.length).takeWhile fun n : Nat => (entries.get (.int (n + 1))).isSome).length

/-! ### Proper tables -/

/-- The integer keys are those of a sequence of length `n`. -/
def IsSequence (entries : Dict Key Value) (n : Nat) : Prop :=
  ∀ i : Int, Key.int i ∈ entries.map Prod.fst ↔ 1 ≤ i ∧ i ≤ n

/-- A value that a program can build: no key twice, no entry that is `nil`, and no holes in a sequence. -/
inductive Value.Proper : Value → Prop
  | nil : Proper .nil
  | bool (b : Bool) : Proper (.bool b)
  | num (n : Rat) : Proper (.num n)
  | str (s : String) : Proper (.str s)
  | table {entries : Dict Key Value} {n : Nat} (keys : (entries.map Prod.fst).Nodup) (sequence : IsSequence entries n)
    (ne_nil : ∀ k v, (k, v) ∈ entries → v ≠ .nil) (proper : ∀ k v, (k, v) ∈ entries → Proper v) :
    Proper (.table entries)

variable {entries : Dict Key Value}

theorem get_isSome_iff {k : Key} : (entries.get k).isSome = true ↔ k ∈ entries.map Prod.fst := by
  constructor
  · intro h
    obtain ⟨v, hv⟩ := Option.isSome_iff_exists.mp h
    exact List.mem_map_of_mem (Dict.mem_of_get hv)
  · intro h
    obtain ⟨⟨k', v⟩, hmem, rfl⟩ := List.mem_map.mp h
    by_contra hnone
    have := List.lookup_eq_none_iff.mp (Option.not_isSome_iff_eq_none.mp hnone) _ hmem
    simp at this

theorem index_of_mem {k : Key} {v : Value} (hkeys : (entries.map Prod.fst).Nodup) (h : (k, v) ∈ entries) :
    index entries k = v := by
  have hsome := get_isSome_iff.mpr (List.mem_map_of_mem (f := Prod.fst) h)
  obtain ⟨w, hw⟩ := Option.isSome_iff_exists.mp hsome
  have hsame := List.inj_on_of_nodup_map hkeys (Dict.mem_of_get hw) h rfl
  rw [index, hw]
  exact (Prod.mk.inj hsame).2

theorem mem_of_index_ne_nil {k : Key} (h : index entries k ≠ .nil) : (k, index entries k) ∈ entries := by
  unfold index at h ⊢
  cases hget : entries.get k with
  | none =>
    rw [hget] at h
    exact absurd rfl h
  | some v => exact Dict.mem_of_get hget

theorem Value.Proper.index (h : Proper (.table entries)) (k : Key) : Proper (index entries k) := by
  by_cases hnil : Lua.index entries k = .nil
  · rw [hnil]
    exact .nil
  · cases h with
    | table _ _ _ proper => exact proper k _ (mem_of_index_ne_nil hnil)

theorem IsSequence.le_length {n : Nat} (h : IsSequence entries n) : n ≤ entries.length := by
  have hinj : ((List.range n).map fun i : Nat => Key.int (i + 1)).Nodup := by
    refine List.Nodup.map ?_ List.nodup_range
    intro i j hij
    injection hij with hij
    omega
  have hsub : ((List.range n).map fun i : Nat => Key.int (i + 1)) ⊆ entries.map Prod.fst := by
    intro k hk
    obtain ⟨i, hi, rfl⟩ := List.mem_map.mp hk
    rw [List.mem_range] at hi
    exact (h (i + 1)).mpr (by omega)
  simpa using (List.subperm_of_subset hinj hsub).length_le

/-- The border of a proper sequence is its length. -/
theorem IsSequence.border_eq {n : Nat} (h : IsSequence entries n) : border entries = n := by
  have hsome (i : Nat) : (entries.get (.int (i + 1))).isSome = decide (i < n) := by
    rw [Bool.eq_iff_iff, get_isSome_iff, h, decide_eq_true_iff]
    omega
  have hsplit : List.range entries.length = List.range n ++ (List.range (entries.length - n)).map (n + ·) := by
    rw [← List.range_add]
    congr 1
    have := h.le_length
    omega
  unfold border
  simp only [hsome]
  rw [hsplit, List.takeWhile_append_of_pos fun i hi => decide_eq_true (List.mem_range.mp hi), List.length_append,
    List.length_range]
  -- the next integer is not a key
  have hrest : ((List.range (entries.length - n)).map (n + ·)).takeWhile (fun i => decide (i < n)) = [] := by
    cases entries.length - n with
    | zero => rfl
    | succ m => simp [List.range_succ_eq_map]
  rw [hrest, List.length_nil, Nat.add_zero]

theorem IsSequence.unique {m n : Nat} (hm : IsSequence entries m) (hn : IsSequence entries n) : m = n :=
  hm.border_eq.symm.trans hn.border_eq

end Lua
