import Mathlib.Data.List.AList
import Mathlib.Order.Basic

/-!
# Trees of files with symbolic links

An entry of a tree stands at a place, which is the list of the names from the entry up to the root, so that a
directory's place is the tail of the places of its entries. A route is followed step by step (`walk`); a link on the
way is replaced by its target, and the number of links that may be replaced is limited, as they can form a loop.

A tree only shrinks when entries are removed (`remove_le`), and what can be walked in the smaller tree can be walked
in the larger one, to the same place (`walk_mono`).
-/

namespace FileTree
universe u
variable {ν : Type u}

inductive Step (ν : Type u) where
  | here
  | up
  | into (name : ν)
  deriving DecidableEq

structure Route (ν : Type u) where
  absolute : Bool
  steps : List (Step ν)
  deriving DecidableEq

/-- What an entry is. A file is anything but a directory or a link. -/
inductive Kind (ν : Type u) where
  | file
  | dir
  | link (target : Route ν)
  deriving DecidableEq

/-- The names from an entry up to the root. -/
abbrev Place (ν : Type u) := List ν

structure DirTree (ν : Type u) [DecidableEq ν] where
  entries : AList fun _ : Place ν => Kind ν
  root : entries.lookup [] = some .dir
  parent : ∀ {n p}, n :: p ∈ entries → entries.lookup p = some .dir

/-- Where a route begins, followed at `p`. -/
def Route.start (r : Route ν) (p : Place ν) : Place ν := if r.absolute then [] else p

/-- The name of an entry of the directory at `p`. -/
def nameIn [DecidableEq ν] (p : Place ν) : Place ν → Option ν
  | [] => none
  | n :: q => if q = p then some n else none

namespace DirTree
variable [DecidableEq ν] {t t' : DirTree ν} {p q : Place ν} {n : ν}

def kind (t : DirTree ν) (p : Place ν) : Option (Kind ν) := t.entries.lookup p

/-- The names of the entries of a directory. -/
def names (t : DirTree ν) (p : Place ν) : List ν := t.entries.keys.filterMap (nameIn p)

theorem mem_names : n ∈ t.names p ↔ t.kind (n :: p) ≠ none := by
  have hmem : t.kind (n :: p) ≠ none ↔ n :: p ∈ t.entries := by
    rw [kind, Ne, AList.lookup_eq_none, not_not]
  rw [hmem, AList.mem_keys, names, List.mem_filterMap]
  constructor
  · rintro ⟨_ | ⟨m, q⟩, hq, hname⟩
    · cases hname
    rw [nameIn] at hname
    split at hname
    · rename_i hqp
      cases hname
      exact hqp ▸ hq
    · cases hname
  · intro h
    exact ⟨n :: p, h, if_pos rfl⟩

theorem kind_parent (h : t.kind (n :: p) ≠ none) : t.kind p = some .dir :=
  t.parent (not_not.mp fun hmem => h (AList.lookup_eq_none.mpr hmem))

/-! ### Removing an entry -/

/-- The tree without an entry that has no entries itself. -/
def remove (t : DirTree ν) (p : Place ν) (hroot : p ≠ []) (hnames : t.names p = []) : DirTree ν where
  entries := t.entries.erase p
  root := by rw [AList.lookup_erase_ne hroot.symm, t.root]
  parent := by
    intro n q h
    obtain ⟨-, hmem⟩ := AList.mem_erase.mp h
    have hne : q ≠ p := by
      rintro rfl
      have hname : n ∈ t.names q := mem_names.mpr fun hnone => AList.lookup_eq_none.mp hnone hmem
      rw [hnames] at hname
      cases hname
    rw [AList.lookup_erase_ne hne, t.parent hmem]

@[simp] theorem kind_remove_self (hroot : p ≠ []) (hnames : t.names p = []) : (t.remove p hroot hnames).kind p = none :=
  AList.lookup_erase p t.entries

theorem kind_remove_of_ne (hroot : p ≠ []) (hnames : t.names p = []) (h : q ≠ p) :
    (t.remove p hroot hnames).kind q = t.kind q :=
  AList.lookup_erase_ne h

theorem names_eq_nil (h : t.kind p ≠ some .dir) : t.names p = [] :=
  List.eq_nil_iff_forall_not_mem.mpr fun _ hn => h (kind_parent (mem_names.mp hn))

theorem ne_nil_of_kind (h : t.kind p ≠ some .dir) : p ≠ [] := by
  rintro rfl
  exact h t.root

/-- The tree without an entry that is no directory. -/
def removeFile (t : DirTree ν) (p : Place ν) (h : t.kind p ≠ some .dir) : DirTree ν :=
  t.remove p (ne_nil_of_kind h) (names_eq_nil h)

/-- The smaller tree lacks entries of the larger one. -/
instance : Preorder (DirTree ν) where
  le t' t := ∀ p k, t'.kind p = some k → t.kind p = some k
  le_refl _ _ _ h := h
  le_trans _ _ _ h₁ h₂ p k h := h₂ p k (h₁ p k h)

theorem kind_mono (h : t' ≤ t) {k : Kind ν} (hk : t'.kind p = some k) : t.kind p = some k := h p k hk

theorem remove_le (hroot : p ≠ []) (hnames : t.names p = []) : t.remove p hroot hnames ≤ t := by
  intro q k hk
  by_cases hq : q = p
  · rw [hq, kind_remove_self] at hk
    cases hk
  · rwa [kind_remove_of_ne hroot hnames hq] at hk

theorem kind_eq_none_of_le (h : t' ≤ t) (hp : t.kind p = none) : t'.kind p = none := by
  by_contra hne
  obtain ⟨k, hk⟩ := Option.ne_none_iff_exists'.mp hne
  rw [kind_mono h hk] at hp
  cases hp

/-! ### Following a route -/

/-- The way on, where `jump` follows the target of a link and the steps behind it. -/
def walkWith (t : DirTree ν) (links : Nat) (jump : Place ν → List (Step ν) → Option (Nat × Place ν)) :
    Place ν → List (Step ν) → Option (Nat × Place ν)
  | p, [] => some (links, p)
  | p, step :: steps =>
    if t.kind p = some .dir then
      match step with
      | .here => walkWith t links jump p steps
      | .up => walkWith t links jump p.tail steps
      | .into n =>
        match t.kind (n :: p) with
        | none => none
        | some (.link target) => jump (target.start p) (target.steps ++ steps)
        | some _ => walkWith t links jump (n :: p) steps
    else none

/-- The place that the steps lead to from `p`, with the number of links that may still be followed. -/
def walk (t : DirTree ν) : (links : Nat) → Place ν → List (Step ν) → Option (Nat × Place ν)
  | 0 => t.walkWith 0 fun _ _ => none
  | links + 1 => t.walkWith (links + 1) (t.walk links)

section Walk
variable {l l₁ l' : Nat} {steps a b : List (Step ν)}

/-- The steps lead from `p` to `q`. -/
inductive Leads (t : DirTree ν) : Nat → Place ν → List (Step ν) → Nat → Place ν → Prop
  | nil (l : Nat) (p : Place ν) : Leads t l p [] l p
  | here {l l' : Nat} {p q : Place ν} {steps : List (Step ν)} :
      t.kind p = some .dir → Leads t l p steps l' q → Leads t l p (.here :: steps) l' q
  | up {l l' : Nat} {p q : Place ν} {steps : List (Step ν)} :
      t.kind p = some .dir → Leads t l p.tail steps l' q → Leads t l p (.up :: steps) l' q
  | into {l l' : Nat} {p q : Place ν} {steps : List (Step ν)} {n : ν} {k : Kind ν} :
      t.kind p = some .dir → t.kind (n :: p) = some k → (∀ target, k ≠ .link target) →
      Leads t l (n :: p) steps l' q → Leads t l p (.into n :: steps) l' q
  | link {l l' : Nat} {p q : Place ν} {steps : List (Step ν)} {n : ν} {target : Route ν} :
      t.kind p = some .dir → t.kind (n :: p) = some (.link target) →
      Leads t l (target.start p) (target.steps ++ steps) l' q → Leads t (l + 1) p (.into n :: steps) l' q

theorem Leads.of_walkWith {jump : Place ν → List (Step ν) → Option (Nat × Place ν)}
    (hjump : ∀ p steps, jump p steps = some (l', q) → ∃ l₀, l = l₀ + 1 ∧ Leads t l₀ p steps l' q)
    (h : t.walkWith l jump p steps = some (l', q)) : Leads t l p steps l' q := by
  induction steps generalizing p with
  | nil =>
    cases h
    exact .nil _ _
  | cons step steps ih =>
    unfold walkWith at h
    split at h
    · rename_i hp
      rcases step with _ | _ | n
      · exact .here hp (ih h)
      · exact .up hp (ih h)
      · cases hk : t.kind (n :: p) with
        | none => simp [hk] at h
        | some k =>
          simp only [hk] at h
          rcases k with _ | _ | target
          · exact .into hp hk nofun (ih h)
          · exact .into hp hk nofun (ih h)
          · obtain ⟨l, rfl, hl⟩ := hjump _ _ h
            exact .link hp hk hl
    · cases h

theorem Leads.of_walk (h : t.walk l p steps = some (l', q)) : Leads t l p steps l' q := by
  induction l generalizing p steps with
  | zero =>
    refine .of_walkWith ?_ h
    intro p steps h
    cases h
  | succ l ih =>
    refine .of_walkWith ?_ h
    intro p steps h
    exact ⟨l, rfl, ih h⟩

theorem walk_eq_walkWith (l : Nat) : ∃ jump, t.walk l = t.walkWith l jump := by
  cases l with
  | zero => exact ⟨_, rfl⟩
  | succ l => exact ⟨_, rfl⟩

theorem Leads.walk_eq (h : Leads t l p steps l' q) : t.walk l p steps = some (l', q) := by
  induction h with
  | nil l p =>
    obtain ⟨jump, hwalk⟩ := walk_eq_walkWith (t := t) l
    rw [hwalk, walkWith]
  | here hp _ ih =>
    rename_i l _ _ _ _ _
    obtain ⟨jump, hwalk⟩ := walk_eq_walkWith (t := t) l
    rw [hwalk] at ih ⊢
    rw [walkWith, if_pos hp, ih]
  | up hp _ ih =>
    rename_i l _ _ _ _ _
    obtain ⟨jump, hwalk⟩ := walk_eq_walkWith (t := t) l
    rw [hwalk] at ih ⊢
    rw [walkWith, if_pos hp, ih]
  | into hp hk hlink _ ih =>
    rename_i l _ _ _ _ _ k _
    obtain ⟨jump, hwalk⟩ := walk_eq_walkWith (t := t) l
    rw [hwalk] at ih ⊢
    rw [walkWith, if_pos hp, ← ih]
    rcases k with _ | _ | target
    · simp only [hk]
    · simp only [hk]
    · exact absurd rfl (hlink target)
  | link hp hk _ ih =>
    rw [walk, walkWith, if_pos hp, ← ih]
    simp only [hk]

theorem walk_eq_some_iff : t.walk l p steps = some (l', q) ↔ Leads t l p steps l' q := ⟨.of_walk, Leads.walk_eq⟩

theorem Leads.append (ha : Leads t l p a l₁ q) {r : Place ν} (hb : Leads t l₁ q b l' r) :
    Leads t l p (a ++ b) l' r := by
  induction ha with
  | nil l p => exact hb
  | here hp _ ih => exact .here hp (ih hb)
  | up hp _ ih => exact .up hp (ih hb)
  | into hp hk hlink _ ih => exact .into hp hk hlink (ih hb)
  | link hp hk _ ih =>
    have happend := ih hb
    rw [List.append_assoc] at happend
    exact .link hp hk happend

theorem Leads.split (h : Leads t l p (a ++ b) l' q) : ∃ l₁ m, Leads t l p a l₁ m ∧ Leads t l₁ m b l' q := by
  generalize hs : a ++ b = steps at h
  induction h generalizing a with
  | nil l p =>
    obtain ⟨rfl, rfl⟩ := List.append_eq_nil_iff.mp hs
    exact ⟨l, p, .nil l p, .nil l p⟩
  | here hp h ih =>
    rcases a with _ | ⟨_, a⟩
    · cases hs
      exact ⟨_, _, .nil _ _, .here hp h⟩
    · cases hs
      obtain ⟨l₁, m, ha, hb⟩ := ih rfl
      exact ⟨l₁, m, .here hp ha, hb⟩
  | up hp h ih =>
    rcases a with _ | ⟨_, a⟩
    · cases hs
      exact ⟨_, _, .nil _ _, .up hp h⟩
    · cases hs
      obtain ⟨l₁, m, ha, hb⟩ := ih rfl
      exact ⟨l₁, m, .up hp ha, hb⟩
  | into hp hk hlink h ih =>
    rcases a with _ | ⟨_, a⟩
    · cases hs
      exact ⟨_, _, .nil _ _, .into hp hk hlink h⟩
    · cases hs
      obtain ⟨l₁, m, ha, hb⟩ := ih rfl
      exact ⟨l₁, m, .into hp hk hlink ha, hb⟩
  | link hp hk h ih =>
    rcases a with _ | ⟨_, a⟩
    · cases hs
      exact ⟨_, _, .nil _ _, .link hp hk h⟩
    · cases hs
      obtain ⟨l₁, m, ha, hb⟩ := ih (List.append_assoc ..)
      exact ⟨l₁, m, .link hp hk ha, hb⟩

theorem Leads.mono (hle : t' ≤ t) (h : Leads t' l p steps l' q) : Leads t l p steps l' q := by
  induction h with
  | nil l p => exact .nil l p
  | here hp _ ih => exact .here (kind_mono hle hp) ih
  | up hp _ ih => exact .up (kind_mono hle hp) ih
  | into hp hk hlink _ ih => exact .into (kind_mono hle hp) (kind_mono hle hk) hlink ih
  | link hp hk _ ih => exact .link (kind_mono hle hp) (kind_mono hle hk) ih

theorem Leads.links_le (h : Leads t l p steps l' q) : l' ≤ l := by
  induction h with
  | nil l p => exact Nat.le_refl l
  | here _ _ ih => exact ih
  | up _ _ ih => exact ih
  | into _ _ _ _ ih => exact ih
  | link _ _ _ ih => exact Nat.le_succ_of_le ih

/-- One name further is one directory deeper, or a link less. -/
theorem Leads.into_cases (h : Leads t l p [.into n] l' q) :
    t.kind p = some .dir ∧ t.kind (n :: p) ≠ none ∧ (l' = l ∧ q = n :: p ∨ l' < l) := by
  cases h with
  | into hp hk hlink h =>
    cases h
    exact ⟨hp, by simp [hk], .inl ⟨rfl, rfl⟩⟩
  | link hp hk h => exact ⟨hp, by simp [hk], .inr (Nat.lt_succ_of_le h.links_le)⟩

end Walk

end DirTree

end FileTree
