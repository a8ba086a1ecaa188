import Atf.CrashReport
import Atf.Lib.Sequence

/-!
# The list of expectations (`ExpectationsList` of `expectations.lua`)

An expectation carries its flag `pinned` and its position `index`; the list keeps the pinned expectations
and the others in two arrays, and `Remove` trusts both fields. `Expectation:Pin` sets the flag and leaves
the move between the arrays to `list:Pin` of a global `list`, which no module ever sets; `list:Pin` itself
moves the expectation without touching any `index`. So the representation (`Rep`) survives exactly the
calls of `Pin` and `Unpin` that change nothing about a member: an expectation is pinned before it is added.
-/

namespace Atf
open Lua

/-- A list with the expectations it refers to, which are objects compared by identity. -/
structure ListHeap where
  expectations : List Nat
  pinned : List Nat
  -- the fields `pinned` and `index` of each expectation
  isPinned : Nat → Bool
  index : Nat → Option Nat

namespace ListHeap

def empty (isPinned : Nat → Bool) : ListHeap := ⟨[], [], isPinned, fun _ => none⟩

def members (self : ListHeap) : List Nat := self.expectations ++ self.pinned

def add (self : ListHeap) (exp : Nat) : ListHeap :=
  if self.isPinned exp then
    { self with
      pinned := self.pinned ++ [exp], index := Function.update self.index exp (some (self.pinned.length + 1)) }
  else
    { self with
      expectations := self.expectations ++ [exp]
      index := Function.update self.index exp (some (self.expectations.length + 1)) }

/-- What `Remove` does to one of the arrays: `table.remove`, then new positions from `exp.index` on. -/
def removeFrom (self : ListHeap) (array : List Nat) (exp : Nat) : LuaM (List Nat × (Nat → Option Nat)) :=
  match self.index exp with
  | none => .error "'for' initial value must be a number"
  | some i => do
    let array ← tableRemove array i
    let index ← renumber array (array.length + 1 - i) i self.index
    return (array, index)

def remove (self : ListHeap) (exp : Nat) : LuaM ListHeap :=
  if self.isPinned exp then do
    let (pinned, index) ← self.removeFrom self.pinned exp
    return { self with pinned, index }
  else do
    let (expectations, index) ← self.removeFrom self.expectations exp
    return { self with expectations, index }

def clear (self : ListHeap) : ListHeap := { self with expectations := [] }

/-- `list:Pin(e)`: the first entry that is `e` moves to the other array. -/
def listPin (self : ListHeap) (e : Nat) : ListHeap :=
  if e ∈ self.expectations then
    { self with expectations := self.expectations.erase e, pinned := self.pinned ++ [e] }
  else self

def listUnpin (self : ListHeap) (e : Nat) : ListHeap :=
  if e ∈ self.pinned then
    { self with pinned := self.pinned.erase e, expectations := self.expectations ++ [e] }
  else self

/-- `Expectation:Pin`; `list` says whether the global of this name is this list, or `nil`. -/
def pin ( list : Bool) (self : ListHeap) (e : Nat) : ListHeap :=
  let self := { self with isPinned := Function.update self.isPinned e true }
  if list then self.listPin e else self

def unpin ( list : Bool) (self : ListHeap) (e : Nat) : ListHeap :=
  let self := { self with isPinned := Function.update self.isPinned e false }
  if list then self.listUnpin e else self

/-! ### Runs -/

inductive Call
  | add (exp : Nat)
  | pin (exp : Nat)
  | unpin (exp : Nat)
  | remove (exp : Nat)
  | clear

def step ( list : Bool) (self : ListHeap) : Call → LuaM ListHeap
  | .add exp => .ok (self.add exp)
  | .pin exp => .ok (self.pin list exp)
  | .unpin exp => .ok (self.unpin list exp)
  | .remove exp => self.remove exp
  | .clear => .ok self.clear

/-- An expectation is added once, and only a member is removed. -/
def Proper (self : ListHeap) : Call → Prop
  | .add exp => exp ∉ self.members
  | .remove exp => exp ∈ self.members
  | _ => True

/-- No call changes the flag of a member. -/
def KeepsFlags (self : ListHeap) : Call → Prop
  | .pin exp => exp ∈ self.members → self.isPinned exp = true
  | .unpin exp => exp ∈ self.members → self.isPinned exp = false
  | _ => True

structure Rep (s : ListHeap) : Prop where
  unpinned : ∀ e ∈ s.expectations, s.isPinned e = false
  pinned : ∀ e ∈ s.pinned, s.isPinned e = true
  position : Positions s.index s.expectations
  pinnedPosition : Positions s.index s.pinned

variable {s s' : ListHeap} { list : Bool} {exp : Nat}

namespace Rep

theorem empty (isPinned : Nat → Bool) : (empty isPinned).Rep :=
  ⟨fun _ h => absurd h List.not_mem_nil, fun _ h => absurd h List.not_mem_nil, .nil _, .nil _⟩

theorem not_mem_pinned (h : s.Rep) (hp : s.isPinned exp = false) : exp ∉ s.pinned := fun he => by
  rw [h.pinned exp he] at hp
  cases hp

theorem not_mem_expectations (h : s.Rep) (hp : s.isPinned exp = true) : exp ∉ s.expectations := fun he => by
  rw [h.unpinned exp he] at hp
  cases hp

theorem nodup (h : s.Rep) : s.members.Nodup := by
  refine List.nodup_append.mpr ⟨h.position.nodup, h.pinnedPosition.nodup, ?_⟩
  rintro e he _ hp rfl
  exact h.not_mem_pinned (h.unpinned e he) hp

/-- Positions of the other array, when only `exp` gets a new one. -/
theorem positions_update {array : List Nat} (h : Positions s.index array) (hexp : exp ∉ array) (i : Option Nat) :
    Positions (Function.update s.index exp i) array :=
  h.congr fun _ ha => Function.update_of_ne (ne_of_mem_of_not_mem ha hexp) _ _

theorem add (h : s.Rep) (hexp : exp ∉ s.members) : (s.add exp).Rep := by
  obtain ⟨he, hp⟩ := not_or.mp (mt List.mem_append.mpr hexp)
  unfold ListHeap.add
  split
  · rename_i hpin
    refine ⟨h.unpinned, ?_, positions_update h.position he _, h.pinnedPosition.concat hp⟩
    intro e hmem
    rcases List.mem_append.mp hmem with hmem | hmem
    · exact h.pinned e hmem
    · rw [List.mem_singleton.mp hmem]
      exact hpin
  · rename_i hpin
    refine ⟨?_, h.pinned, h.position.concat he, positions_update h.pinnedPosition hp _⟩
    intro e hmem
    rcases List.mem_append.mp hmem with hmem | hmem
    · exact h.unpinned e hmem
    · rw [List.mem_singleton.mp hmem]
      exact Bool.eq_false_iff.mpr hpin

theorem removeFrom {array : List Nat} (h : Positions s.index array) (hexp : exp ∈ array) :
    ∃ index, s.removeFrom array exp = .ok (array.erase exp, index) ∧ Positions index (array.erase exp) ∧
      ∀ b ∉ array, index b = s.index b := by
  obtain ⟨pre, post, rfl, hi⟩ := h.split hexp
  have hpre : exp ∉ pre := fun hmem =>
    (List.nodup_append.mp h.nodup).2.2 exp hmem exp List.mem_cons_self rfl
  have herase : (pre ++ exp :: post).erase exp = pre ++ post := by
    rw [List.erase_append_right _ hpre, List.erase_cons_head]
  obtain ⟨index, hok, hpos, hout⟩ := h.remove
  refine ⟨index, ?_, herase ▸ hpos, fun b hb => hout b fun hpost => hb ?_⟩
  · have hcount : (pre ++ post).length + 1 - (pre.length + 1) = post.length := by
      rw [List.length_append]
      omega
    simp only [ListHeap.removeFrom, hi, tableRemove_middle, herase]
    show (do
      let index ← renumber (pre ++ post) ((pre ++ post).length + 1 - (pre.length + 1)) (pre.length + 1) s.index
      return (pre ++ post, index)) = _
    rw [hcount, hok]
    rfl
  · exact List.mem_append_right pre (List.mem_cons_of_mem exp hpost)

/-- `Remove` takes out the expectation it is given, and nothing else. -/
theorem remove (h : s.Rep) (hexp : exp ∈ s.members) :
    ∃ s', s.remove exp = .ok s' ∧ s'.Rep ∧ s'.expectations = s.expectations.erase exp ∧
      s'.pinned = s.pinned.erase exp ∧ s'.isPinned = s.isPinned := by
  cases hpin : s.isPinned exp with
  | true =>
    have hne := h.not_mem_expectations hpin
    obtain ⟨index, hok, hpos, hout⟩ :=
      removeFrom h.pinnedPosition ((List.mem_append.mp hexp).resolve_left hne)
    refine ⟨{ s with pinned := s.pinned.erase exp, index }, ?_, ?_, ?_, rfl, rfl⟩
    · rw [ListHeap.remove, if_pos hpin, hok]
      rfl
    · refine ⟨h.unpinned, fun e he => h.pinned e (List.mem_of_mem_erase he), ?_, hpos⟩
      exact h.position.congr fun a ha => hout a (h.not_mem_pinned (h.unpinned a ha))
    · exact (List.erase_of_not_mem hne).symm
  | false =>
    have hne := h.not_mem_pinned hpin
    obtain ⟨index, hok, hpos, hout⟩ := removeFrom h.position ((List.mem_append.mp hexp).resolve_right hne)
    refine ⟨{ s with expectations := s.expectations.erase exp, index }, ?_, ?_, rfl, ?_, rfl⟩
    · rw [ListHeap.remove, if_neg (by rw [hpin]; exact Bool.false_ne_true), hok]
      rfl
    · refine ⟨fun e he => h.unpinned e (List.mem_of_mem_erase he), h.pinned, hpos, ?_⟩
      exact h.pinnedPosition.congr fun a ha => hout a (h.not_mem_expectations (h.pinned a ha))
    · exact (List.erase_of_not_mem hne).symm

theorem clear (h : s.Rep) : s.clear.Rep :=
  ⟨fun _ he => absurd he List.not_mem_nil, h.pinned, .nil _, h.pinnedPosition⟩

/-- Setting a flag to the value it has, or the flag of an expectation that is not in the list. -/
theorem setFlag (h : s.Rep) {flag : Bool} (hf : exp ∈ s.members → s.isPinned exp = flag) :
    Rep { s with isPinned := Function.update s.isPinned exp flag } := by
  have hsame : ∀ e ∈ s.members, Function.update s.isPinned exp flag e = s.isPinned e := by
    intro e he
    rcases eq_or_ne e exp with rfl | hne
    · rw [Function.update_self, hf he]
    · exact Function.update_of_ne hne _ _
  refine ⟨fun e he => ?_, fun e he => ?_, h.position, h.pinnedPosition⟩
  · exact (hsame e (List.mem_append_left _ he)).trans (h.unpinned e he)
  · exact (hsame e (List.mem_append_right _ he)).trans (h.pinned e he)

theorem pin (h : s.Rep) (hf : exp ∈ s.members → s.isPinned exp = true) : (s.pin list exp).Rep := by
  have hset := h.setFlag hf
  have hne : exp ∉ s.expectations := hset.not_mem_expectations (Function.update_self ..)
  unfold ListHeap.pin
  split
  · rw [listPin, if_neg hne]
    exact hset
  · exact hset

theorem unpin (h : s.Rep) (hf : exp ∈ s.members → s.isPinned exp = false) : (s.unpin list exp).Rep := by
  have hset := h.setFlag hf
  have hne : exp ∉ s.pinned := hset.not_mem_pinned (Function.update_self ..)
  unfold ListHeap.unpin
  split
  · rw [listUnpin, if_neg hne]
    exact hset
  · exact hset

theorem step (h : s.Rep) {c : Call} (hp : s.Proper c) (hk : s.KeepsFlags c) (hs : s.step list c = .ok s') :
    s'.Rep := by
  rcases c with exp | exp | exp | exp | _
  · cases hs
    exact h.add hp
  · cases hs
    exact h.pin hk
  · cases hs
    exact h.unpin hk
  · obtain ⟨s₁, hs₁, hrep, -⟩ := h.remove hp
    cases hs₁.symm.trans hs
    exact hrep
  · cases hs
    exact h.clear

end Rep

/-- Where the global `list` is `nil`, a call that changes the flag of a member breaks the representation. -/
theorem not_rep_of_flag (h : s.Rep) {flag : Bool} (hmem : exp ∈ s.members) (hf : s.isPinned exp ≠ flag) :
    ¬ Rep { s with isPinned := Function.update s.isPinned exp flag } := by
  intro hrep
  rcases List.mem_append.mp hmem with he | he
  · have h' : flag = false := (Function.update_self ..).symm.trans (hrep.unpinned exp he)
    exact hf ((h.unpinned exp he).trans h'.symm)
  · have h' : flag = true := (Function.update_self ..).symm.trans (hrep.pinned exp he)
    exact hf ((h.pinned exp he).trans h'.symm)

theorem rep_step_iff (h : s.Rep) {c : Call} (hp : s.Proper c) :
    (∃ s', s.step false c = .ok s' ∧ s'.Rep) ↔ s.KeepsFlags c := by
  constructor
  · rintro ⟨s', hs, hrep⟩
    rcases c with exp | exp | exp | exp | _
    · trivial
    · cases hs
      intro hmem
      by_contra hf
      exact not_rep_of_flag h hmem hf hrep
    · cases hs
      intro hmem
      by_contra hf
      exact not_rep_of_flag h hmem hf hrep
    · trivial
    · trivial
  · intro hk
    rcases c with exp | exp | exp | exp | _
    · exact ⟨_, rfl, h.add hp⟩
    · exact ⟨_, rfl, h.pin hk⟩
    · exact ⟨_, rfl, h.unpin hk⟩
    · obtain ⟨s', hs', hrep, -⟩ := h.remove hp
      exact ⟨s', hs', hrep⟩
    · exact ⟨_, rfl, h.clear⟩

theorem clear_members (h : s.Rep) : s.clear.members = s.members.filter s.isPinned := by
  have he : s.expectations.filter s.isPinned = [] := by
    rw [List.filter_eq_nil_iff]
    intro e he
    rw [h.unpinned e he]
    exact Bool.false_ne_true
  have hp : s.pinned.filter s.isPinned = s.pinned := List.filter_eq_self.mpr h.pinned
  rw [members, members, List.filter_append, he, hp]
  rfl

/-- In every run in which no call changes the flag of a member, the representation holds, `Remove` takes
out exactly its argument, `Clear` the unpinned members; and with no global `list` no other call keeps it. -/
theorem representation_kept (list : Bool) (isPinned : Nat → Bool)
    (hr : Run.Reaches (step list) (fun s c => s.Proper c ∧ s.KeepsFlags c) (empty isPinned) s) :
    s.Rep ∧ s.members.Nodup ∧
      (∀ e ∈ s.members, ∃ s', s.remove e = .ok s' ∧ s'.expectations = s.expectations.erase e ∧
        s'.pinned = s.pinned.erase e) ∧
      s.clear.members = s.members.filter s.isPinned ∧
      ∀ c, s.Proper c → ((∃ s', s.step false c = .ok s' ∧ s'.Rep) ↔ s.KeepsFlags c) := by
  have h : s.Rep := hr.invariant (.empty isPinned) fun _ _ _ h hg hs => h.step hg.1 hg.2 hs
  refine ⟨h, h.nodup, fun e he => ?_, clear_members h, fun _ hp => rep_step_iff h hp⟩
  obtain ⟨s', hs', -, hexp, hpin, -⟩ := h.remove he
  exact ⟨s', hs', hexp, hpin⟩

instance (s : ListHeap) : ∀ c, Decidable (s.Proper c ∧ s.KeepsFlags c)
  | .add exp => inferInstanceAs (Decidable (exp ∉ s.members ∧ True))
  | .pin exp => inferInstanceAs (Decidable (True ∧ (exp ∈ s.members → s.isPinned exp = true)))
  | .unpin exp => inferInstanceAs (Decidable (True ∧ (exp ∈ s.members → s.isPinned exp = false)))
  | .remove exp => inferInstanceAs (Decidable (exp ∈ s.members ∧ True))
  | .clear => inferInstanceAs (Decidable (True ∧ True))

/-- A run with both kinds: 1 is pinned before it is added, 0 and 2 are not, and 0 is removed. -/
theorem representation_kept_after_remove :
    ∃ s, Run.exec (step false) (fun s c => s.Proper c ∧ s.KeepsFlags c) (empty fun _ => false)
        [.add 0, .pin 1, .add 1, .add 2, .remove 0] = some s ∧ s.Rep ∧ s.expectations = [2] ∧ s.pinned = [1] := by
  let calls : List Call := [.add 0, .pin 1, .add 1, .add 2, .remove 0]
  refine ⟨_, rfl, ?_, rfl, rfl⟩
  have hex : Run.exec (step false) (fun s c => s.Proper c ∧ s.KeepsFlags c) (empty fun _ => false) calls = some _ := rfl
  exact (representation_kept false (fun _ => false) (Run.Reaches.of_exec .start hex)).1

/-- Pinning a member: its flag says that it stands among the pinned ones, and `Remove` does not find it. -/
theorem pin_member_breaks :
    ∃ s s', ((((empty fun _ => false).add 0).pin false 0) = s ∧ ¬ s.Rep) ∧ s.remove 0 = .ok s' ∧ 0 ∈ s'.members := by
  refine ⟨_, _, ⟨rfl, fun h => ?_⟩, rfl, by decide⟩
  exact absurd (h.unpinned 0 (by decide)) (by decide)

/-! ### The list as the step engine sees it -/

def view (value : Nat → StepExpectation) (s : ListHeap) : ExpectationsList :=
  ⟨s.expectations.map value, s.pinned.map value⟩

end ListHeap

namespace ExpectationsList
variable {l : ExpectationsList}

/-- The loop of `CheckStatus` ends, with each expectation visited once, exactly when the list does not
hold expectations of both kinds. -/
theorem visit_all_iff (l : ExpectationsList) :
    (∃ fuel, l.visit fuel 0 = some (l.expectations ++ l.pinned)) ↔ l.expectations = [] ∨ l.pinned = [] := by
  constructor
  · rintro ⟨fuel, hv⟩
    by_contra h
    obtain ⟨he, hp⟩ := not_or.mp h
    rw [visit_eq_none he hp fuel] at hv
    cases hv
  · intro h
    exact ⟨_, visit_eq h⟩

/-- One expectation of each kind: the loop never ends. -/
theorem visit_two_kinds :
    ¬ ∃ fuel es, ExpectationsList.visit
      ⟨[StepExpectation.new "a" none 0], [{ StepExpectation.new "b" none 0 with pinned := true }]⟩ fuel 0 =
        some es := by
  rintro ⟨fuel, es, h⟩
  rw [visit_eq_none (by simp) (by simp) fuel] at h
  cases h

end ExpectationsList

end Atf
