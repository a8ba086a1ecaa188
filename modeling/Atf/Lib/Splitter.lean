import Mathlib.Data.List.TakeDrop

/-!
# Splitting a buffered stream

A `Splitter` cuts the next complete item off the front of a buffer. What makes reading independent
of how the stream is delivered is that a complete item stays complete, and is the same item, when
more input follows it (`next_append`). `split` cuts until nothing complete is left, and
`split_append` is the resulting law: cutting a buffer that was extended by `x` is cutting the
buffer, and then cutting what was left extended by `x`.
-/

structure Splitter (α φ : Type) where
  next : List α → Option (φ × List α)
  next_length : ∀ {b : List α} {f : φ} {r : List α}, next b = some (f, r) → r.length < b.length
  next_append : ∀ {b : List α} {f : φ} {r : List α} (x : List α), next b = some (f, r) →
    next (b ++ x) = some (f, r ++ x)

namespace Splitter
variable {α φ : Type} (S : Splitter α φ)

/-- At most `n` items off the front of `b`, and what is left of it. -/
def splitN : Nat → List α → List φ × List α
  | 0, b => ([], b)
  | n + 1, b =>
    match S.next b with
    | none => ([], b)
    | some (f, r) => (f :: (splitN n r).1, (splitN n r).2)

/-- All complete items of `b`, and what is left of it. -/
def split (b : List α) : List φ × List α := S.splitN b.length b

theorem splitN_of_next_none {b : List α} (h : S.next b = none) (n : Nat) : S.splitN n b = ([], b) := by
  cases n with
  | zero => rfl
  | succ n => simp [splitN, h]

theorem splitN_of_length_le {n m : Nat} {b : List α} (hn : b.length ≤ n) (hm : b.length ≤ m) :
    S.splitN n b = S.splitN m b := by
  induction n generalizing m b with
  | zero =>
    have hb : S.next b = none := by
      match h : S.next b with
      | none => rfl
      | some (f, r) => have := S.next_length h; omega
    rw [splitN_of_next_none S hb, splitN_of_next_none S hb]
  | succ n ih =>
    match h : S.next b with
    | none => rw [splitN_of_next_none S h, splitN_of_next_none S h]
    | some (f, r) =>
      have hr := S.next_length h
      obtain ⟨m, rfl⟩ : ∃ m', m = m' + 1 := ⟨m - 1, by omega⟩
      simp only [splitN, h]
      rw [ih (m := m) (by omega) (by omega)]

theorem split_of_next_none {b : List α} (h : S.next b = none) : S.split b = ([], b) :=
  S.splitN_of_next_none h _

theorem split_of_next_some {b r : List α} {f : φ} (h : S.next b = some (f, r)) :
    S.split b = (f :: (S.split r).1, (S.split r).2) := by
  have hr := S.next_length h
  obtain ⟨n, hn⟩ : ∃ n, b.length = n + 1 := ⟨b.length - 1, by omega⟩
  rw [split, hn]
  simp only [splitN, h]
  rw [S.splitN_of_length_le (n := n) (m := r.length) (by omega) (Nat.le_refl _)]
  rfl

/-- The law of chunked reading. -/
theorem split_append (b x : List α) :
    S.split (b ++ x) =
      ((S.split b).1 ++ (S.split ((S.split b).2 ++ x)).1, (S.split ((S.split b).2 ++ x)).2) := by
  induction hn : b.length using Nat.strongRecOn generalizing b with
  | _ n ih =>
    match h : S.next b with
    | none => simp [S.split_of_next_none h]
    | some (f, r) =>
      have hr := S.next_length h
      rw [S.split_of_next_some (S.next_append x h), S.split_of_next_some h, ih r.length (by omega) r rfl]
      rfl

/-- What is left has no complete item. -/
theorem split_rest (b : List α) : S.split (S.split b).2 = ([], (S.split b).2) := by
  have h := S.split_append b []
  rw [List.append_nil, List.append_nil, Prod.ext_iff] at h
  exact Prod.ext (List.self_eq_append_right.mp h.1) h.2.symm

end Splitter
