import Mathlib.Data.List.TakeDrop
import Mathlib.Data.Nat.Bitwise
import Mathlib.Logic.Function.Basic

/-!
# Lua values the models are written with

Lua 5.2 strings are byte strings, its tables are partial maps and every operation may raise. The
string functions below are `string.byte`, `string.sub` and `string.char` at the positive, 1-based
indices that programs use; `Bit32` is the `bit32` library, whose arguments are first reduced modulo
`2 ^ 32`. The second half is the two byte orders of a 32-bit word, which is what such code computes
with these operations.
-/

namespace Lua

/-- A Lua computation returns a value or raises an error with a message. -/
abbrev LuaM := Except String

theorem bind_eq_ok {α β : Type} {x : LuaM α} {f : α → LuaM β} {b : β} :
    (x >>= f) = .ok b ↔ ∃ a, x = .ok a ∧ f a = .ok b := by
  cases x <;> simp [bind, Except.bind]

theorem map_eq_ok {α β : Type} {x : LuaM α} {f : α → β} {b : β} :
    x.map f = .ok b ↔ ∃ a, x = .ok a ∧ f a = b := by
  cases x <;> simp [Except.map]

/-- What every round of a loop keeps, the loop keeps. -/
theorem foldlM_invariant {α β : Type} {f : β → α → LuaM β} {I : β → Prop} {xs : List α} {b b' : β}
    (h : xs.foldlM f b = .ok b') (hstart : I b) (hstep : ∀ b a b', I b → f b a = .ok b' → I b') : I b' := by
  induction xs generalizing b with
  | nil => cases h; exact hstart
  | cons a xs ih =>
    rw [List.foldlM_cons] at h
    obtain ⟨b₁, hb₁, h⟩ := bind_eq_ok.mp h
    exact ih h (hstep b a b₁ hstart hb₁)

abbrev Bytes := List UInt8

/-! ### Tables -/

/-- A table, seen through its lookup; `none` is `nil`. -/
abbrev Table (κ ν : Type) := κ → Option ν

namespace Table
variable {κ ν : Type}

def empty : Table κ ν := fun _ => none

@[simp] theorem empty_apply (k : κ) : (empty : Table κ ν) k = none := rfl

variable [DecidableEq κ]

def set (t : Table κ ν) (k : κ) (v : ν) : Table κ ν := Function.update t k (some v)

def erase (t : Table κ ν) (k : κ) : Table κ ν := Function.update t k none

theorem set_apply (t : Table κ ν) (k : κ) (v : ν) (k' : κ) :
    t.set k v k' = if k' = k then some v else t k' := by
  simp [set, Function.update_apply]

theorem erase_apply (t : Table κ ν) (k k' : κ) : t.erase k k' = if k' = k then none else t k' := by
  simp [erase, Function.update_apply]

@[simp] theorem set_self (t : Table κ ν) (k : κ) (v : ν) : t.set k v k = some v := by simp [set_apply]

@[simp] theorem erase_self (t : Table κ ν) (k : κ) : t.erase k k = none := by simp [erase_apply]

theorem set_of_ne (t : Table κ ν) {k k' : κ} (v : ν) (h : k' ≠ k) : t.set k v k' = t k' := by
  simp [set_apply, h]

theorem erase_of_ne (t : Table κ ν) {k k' : κ} (h : k' ≠ k) : t.erase k k' = t k' := by
  simp [erase_apply, h]

@[simp] theorem set_set (t : Table κ ν) (k : κ) (v v' : ν) : (t.set k v).set k v' = t.set k v' := by
  simp [set]

theorem set_eq_self {t : Table κ ν} {k : κ} {v : ν} (h : t k = some v) : t.set k v = t := by
  rw [set, ← h, Function.update_eq_self]

@[simp] theorem erase_set (t : Table κ ν) (k : κ) (v : ν) : (t.set k v).erase k = t.erase k := by
  simp [set, erase]

@[simp] theorem erase_empty (k : κ) : (empty : Table κ ν).erase k = empty := by
  funext k'; simp [erase_apply]

theorem erase_eq_self_iff {t : Table κ ν} {k : κ} : t.erase k = t ↔ t k = none := by
  constructor
  · intro h
    rw [← h]
    exact erase_self t k
  · intro h
    rw [erase, ← h, Function.update_eq_self]

end Table

/-! ### Dictionaries -/

/-- A table with its entries in the order in which `pairs` visits them. -/
abbrev Dict (κ ν : Type) := List (κ × ν)

namespace Dict
variable {κ ν : Type} [DecidableEq κ]

def get (d : Dict κ ν) (k : κ) : Option ν := d.lookup k

def set : Dict κ ν → κ → ν → Dict κ ν
  | [], k, v => [(k, v)]
  | (k', v') :: d, k, v => if k' = k then (k, v) :: d else (k', v') :: set d k v

theorem mem_of_get {d : Dict κ ν} {k : κ} {v : ν} (h : d.get k = some v) : (k, v) ∈ d := by
  obtain ⟨l₁, l₂, hsplit, -⟩ := List.lookup_eq_some_iff.mp h
  rw [hsplit]
  exact List.mem_append_right _ List.mem_cons_self

/-- A new key goes to the end. -/
theorem set_of_forall_ne {d : Dict κ ν} {k : κ} (v : ν) (h : ∀ p ∈ d, p.1 ≠ k) : d.set k v = d ++ [(k, v)] := by
  induction d with
  | nil => rfl
  | cons p d ih =>
    have hne : ¬ p.1 = k := h p List.mem_cons_self
    rw [set, if_neg hne, ih fun q hq => h q (List.mem_cons_of_mem p hq)]
    rfl

end Dict

/-! ### Strings -/

def byte (s : Bytes) (i : Nat) : Option Nat := s[i - 1]?.map UInt8.toNat

def sub (s : Bytes) (i j : Nat) : Bytes := (s.take j).drop (i - 1)

def subFrom (s : Bytes) (i : Nat) : Bytes := s.drop (i - 1)

def char (codes : List Nat) : LuaM Bytes :=
  codes.mapM fun n =>
    if n < 256 then .ok (UInt8.ofNat n) else .error "bad argument to 'char' (value out of range)"

/-- `file:read(n)` at position `pos` of a file with this content: up to `n` bytes, `nil` at its end. -/
def read (content : Bytes) (pos n : Nat) : Option Bytes :=
  if content.length ≤ pos then none else some ((content.drop pos).take n)

/-- A number argument or operand: `nil` raises. -/
def number {α : Type} : Option α → LuaM α
  | some a => .ok a
  | none => .error "number expected, got nil"

@[simp] theorem number_some {α : Type} (a : α) : number (some a) = .ok a := rfl

/-- `s:find(word)` for a word without magic characters: the number of elements before its first occurrence. -/
def findWord {α : Type} [BEq α] (word : List α) : List α → Option Nat
  | [] => if word.isEmpty then some 0 else none
  | c :: s => if word.isPrefixOf (c :: s) then some 0 else (findWord word s).map (· + 1)

theorem findWord_eq_some_iff {α : Type} [BEq α] [LawfulBEq α] {word s : List α} {i : Nat} :
    findWord word s = some i ↔ i ≤ s.length ∧ word <+: s.drop i ∧ ∀ j < i, ¬ word <+: s.drop j := by
  induction s generalizing i with
  | nil =>
    simp only [findWord, List.isEmpty_iff, List.length_nil, Nat.le_zero, List.drop_nil, List.prefix_nil]
    constructor
    · intro h
      split at h
      · rename_i hword
        cases h
        exact ⟨rfl, hword, fun j hj => absurd hj (Nat.not_lt_zero j)⟩
      · cases h
    · rintro ⟨rfl, hword, -⟩
      rw [if_pos hword]
  | cons c s ih =>
    unfold findWord
    by_cases hhere : word <+: c :: s
    · rw [if_pos (List.isPrefixOf_iff_prefix.mpr hhere)]
      constructor
      · intro h
        cases h
        exact ⟨Nat.zero_le _, hhere, fun j hj => absurd hj (Nat.not_lt_zero j)⟩
      · rintro ⟨-, -, hfirst⟩
        cases i with
        | zero => rfl
        | succ i => exact absurd hhere (hfirst 0 (Nat.succ_pos i))
    · rw [if_neg (mt List.isPrefixOf_iff_prefix.mp hhere), Option.map_eq_some_iff]
      constructor
      · rintro ⟨j, hj, rfl⟩
        obtain ⟨hle, hword, hfirst⟩ := ih.mp hj
        refine ⟨Nat.succ_le_succ hle, hword, fun k hk => ?_⟩
        cases k with
        | zero => exact hhere
        | succ k => exact hfirst k (Nat.lt_of_succ_lt_succ hk)
      · rintro ⟨hle, hword, hfirst⟩
        cases i with
        | zero => exact absurd hword hhere
        | succ i =>
          refine ⟨i, ih.mpr ⟨Nat.le_of_succ_le_succ hle, hword, fun j hj => ?_⟩, rfl⟩
          exact hfirst (j + 1) (Nat.succ_lt_succ hj)

theorem char_of_lt {codes : List Nat} (h : ∀ n ∈ codes, n < 256) :
    char codes = .ok (codes.map UInt8.ofNat) := by
  induction codes with
  | nil => rfl
  | cons n codes ih =>
    have hn : n < 256 := h n (by simp)
    have ih := ih fun m hm => h m (by simp [hm])
    simp only [char] at ih ⊢
    simp [List.mapM_cons, hn, ih, bind, Except.bind, pure, Except.pure]

theorem length_of_char {codes : List Nat} {b : Bytes} (h : char codes = .ok b) : b.length = codes.length := by
  induction codes generalizing b with
  | nil => cases h; rfl
  | cons n codes ih =>
    simp only [char, List.mapM_cons, bind, Except.bind] at h ih
    split at h
    · cases h
    · split at h
      · cases h
      · rename_i bs hbs
        cases h
        simp [ih hbs]

theorem read_eq_some {content data : Bytes} {pos n : Nat} :
    read content pos n = some data ↔ pos < content.length ∧ data = (content.drop pos).take n := by
  unfold read
  split
  · simp only [reduceCtorEq, false_iff, not_and]
    omega
  · simp only [Option.some.injEq]
    constructor
    · rintro rfl
      exact ⟨by omega, rfl⟩
    · rintro ⟨-, rfl⟩
      rfl

theorem take_append_read {content data : Bytes} {pos n : Nat} (h : read content pos n = some data) :
    content.take pos ++ data = content.take (pos + data.length) := by
  obtain ⟨-, rfl⟩ := read_eq_some.mp h
  rw [List.take_add, List.append_cancel_left_eq, List.length_take, List.take_eq_take_iff]
  omega

/-! ### The `bit32` library -/

namespace Bit32

def norm (x : Int) : Nat := (x % 2 ^ 32).toNat

def band (x y : Int) : Nat := norm x &&& norm y

def bor (x y : Int) : Nat := norm x ||| norm y

def rshift (x : Int) (k : Nat) : Nat := norm x >>> k

def lshift (x : Int) (k : Nat) : Nat := norm x <<< k % 2 ^ 32

theorem norm_lt (x : Int) : norm x < 2 ^ 32 := by unfold norm; omega

theorem norm_natCast (n : Nat) : norm n = n % 2 ^ 32 := by unfold norm; omega

theorem norm_of_lt {n : Nat} (h : n < 2 ^ 32) : norm n = n := by
  rw [norm_natCast, Nat.mod_eq_of_lt h]

/-- Masking by `2 ^ k - 1` is reduction modulo `2 ^ k`. -/
theorem band_mask (x : Int) (k : Nat) (hk : k ≤ 32) : band x ((2 ^ k - 1 : Nat) : Int) = norm x % 2 ^ k := by
  have h : 2 ^ k - 1 < 2 ^ 32 := by
    have : 2 ^ k ≤ 2 ^ 32 := Nat.pow_le_pow_right (by decide) hk
    have : 0 < 2 ^ k := Nat.two_pow_pos k
    omega
  rw [band, norm_of_lt h, Nat.and_two_pow_sub_one_eq_mod]

theorem rshift_band_byte (x : Int) (i : Nat) (hi : i ≤ 3) :
    rshift (band x ((255 * 2 ^ (8 * i) : Nat) : Int)) (8 * i) = norm x / 2 ^ (8 * i) % 256 := by
  have hm : 255 * 2 ^ (8 * i) < 2 ^ 32 := by
    have : i = 0 ∨ i = 1 ∨ i = 2 ∨ i = 3 := by omega
    rcases this with rfl | rfl | rfl | rfl <;> decide
  have hb : norm x &&& 255 * 2 ^ (8 * i) < 2 ^ 32 :=
    Nat.lt_of_le_of_lt Nat.and_le_right hm
  rw [rshift, band, norm_of_lt hm, norm_of_lt hb, Nat.shiftRight_and_distrib,
    Nat.shiftRight_eq_div_pow, Nat.shiftRight_eq_div_pow, Nat.mul_div_cancel _ (Nat.two_pow_pos _)]
  exact Nat.and_two_pow_sub_one_eq_mod _ 8

end Bit32

/-! ### 32-bit words as bytes -/

/-- The four bytes of `n % 2 ^ 32`, most significant first. -/
def be32 (n : Nat) : Bytes :=
  [UInt8.ofNat (n / 2 ^ 24), UInt8.ofNat (n / 2 ^ 16), UInt8.ofNat (n / 2 ^ 8), UInt8.ofNat n]

def le32 (n : Nat) : Bytes := (be32 n).reverse

@[simp] theorem length_be32 (n : Nat) : (be32 n).length = 4 := rfl

@[simp] theorem length_le32 (n : Nat) : (le32 n).length = 4 := rfl

/-- The word whose bytes, most significant first, are `a b c d`. -/
def word32 (a b c d : UInt8) : Nat :=
  a.toNat * 2 ^ 24 + b.toNat * 2 ^ 16 + c.toNat * 2 ^ 8 + d.toNat

theorem word32_be32 (n : Nat) :
    word32 (UInt8.ofNat (n / 2 ^ 24)) (UInt8.ofNat (n / 2 ^ 16)) (UInt8.ofNat (n / 2 ^ 8)) (UInt8.ofNat n) =
      n % 2 ^ 32 := by
  simp only [word32, UInt8.toNat_ofNat']
  omega

end Lua
