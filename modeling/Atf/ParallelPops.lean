import Atf.Parallels

/-!
# The pops of the workers

Between two critical sections the files are those after some number `k` of pops (`Free`): the record has the
first `k` lines, the queue the others, and the last id is `k`. Inside, the worker is between two such states,
and the assertion at its location says which of the files it has changed already. Only lines in front of the
first blank one are popped, so a worker that has found a blank line keeps finding it.
-/

namespace Atf
namespace Parallels
open TextLines LockFile

def isBlank (line : Text) : Bool := (body line).all isBlankChar

theorem firstField_eq_nil_iff (line : Text) : firstField line = [] ↔ isBlank line = true := by
  unfold firstField isBlank
  induction body line with
  | nil => simp
  | cons c cs ih =>
    cases hc : isBlankChar c with
    | true => simpa [List.dropWhile_cons, hc] using ih
    | false => simp [hc]

/-- The lines in front of the first blank one. -/
def headRun (ls : List Text) : List Text := ls.takeWhile fun line => !isBlank line

/-- As long as the pops have not passed the first blank line, the next line says whether they have reached it. -/
theorem lt_headRun_iff {ls : List Text} {k : Nat} (h : k ≤ (headRun ls).length) :
    k < (headRun ls).length ↔ firstField (ls.getD k []) ≠ [] := by
  rw [ne_eq, firstField_eq_nil_iff]
  induction ls generalizing k with
  | nil => simp [headRun, isBlank, body] at h ⊢
  | cons line ls ih =>
    cases hb : isBlank line with
    | true =>
      simp only [headRun, List.takeWhile_cons, hb, Bool.not_true, Bool.false_eq_true, if_false, List.length_nil,
        Nat.le_zero] at h
      subst h
      simp [headRun, hb]
    | false =>
      cases k with
      | zero => simp [headRun, hb]
      | succ k =>
        simp only [headRun, List.takeWhile_cons, hb, Bool.not_false, if_true, List.length_cons,
          Nat.add_le_add_iff_right] at h
        simpa [headRun, List.takeWhile_cons, hb] using ih h

theorem length_headRun_le (ls : List Text) : (headRun ls).length ≤ ls.length :=
  (List.takeWhile_sublist _).length_le

/-- The first `k` lines with the ids from 1 on. -/
def popsOf (ls : List Text) (k : Nat) : List Pop := (List.range k).map fun i => ⟨i + 1, firstField (ls.getD i [])⟩

theorem popsOf_succ (ls : List Text) (k : Nat) :
    popsOf ls (k + 1) = popsOf ls k ++ [⟨k + 1, firstField (ls.getD k [])⟩] := by
  simp [popsOf, List.range_succ]

theorem length_popsOf (ls : List Text) (k : Nat) : (popsOf ls k).length = k := by simp [popsOf]

theorem popsOf_ids (ls : List Text) (k : Nat) : (popsOf ls k).map Pop.id = List.range' 1 k := by
  rw [List.range'_eq_map_range]
  simp [popsOf, Nat.add_comm]

theorem popsOf_LINEs {ls : List Text} {k : Nat} (h : k ≤ ls.length) :
    (popsOf ls k).map Pop.LINE = (ls.take k).map firstField := by
  induction k with
  | zero => rfl
  | succ k ih =>
    have hk : k < ls.length := h
    rw [popsOf_succ, List.map_append, ih (by omega), List.take_succ_eq_append_getElem hk, List.map_append]
    simp [List.getD_eq_getElem?_getD, hk]

/-! ### The assertions -/

section
variable (ls : List Text)

/-- After `k` pops; `n` more lines are gone from the queue, and `id` is in the file of the test id. -/
structure Holds (k n : Nat) (id : Option Nat) (x : Shared) : Prop where
  le : k ≤ (headRun ls).length
  pops : x.pops = popsOf ls k
  queue : x.queue = (ls.drop (k + n)).flatten
  testId : x.testId = id

/-- There is no file with the id before the first pop. -/
def lastId (k : Nat) : Option Nat := if k = 0 then none else some k

def Free (x : Shared) : Prop := ∃ k, Holds ls k 0 (lastId k) x

/-- `LINE` is that of the next line, and it is not blank. -/
def Next (k : Nat) (LINE : Text) : Prop := k < (headRun ls).length ∧ LINE = firstField (ls.getD k [])

/-- All lines in front of the first blank one have been popped. -/
def Done (x : Shared) : Prop := x.pops.length = (headRun ls).length

def At : Location → Shared → Prop
  | .locked, x => Free ls x
  | .read LINE, x => ∃ k, Holds ls k 0 (lastId k) x ∧ LINE = firstField (ls.getD k [])
  | .rewriting LINE rest, x =>
    ∃ k, Holds ls k 0 (lastId k) x ∧ Next ls k LINE ∧ rest = (ls.drop (k + 1)).flatten
  | .removed LINE, x => ∃ k, Holds ls k 1 (lastId k) x ∧ Next ls k LINE
  | .numbered LINE, x => ∃ k, Holds ls k 1 (some k) x ∧ Next ls k LINE
  | .counted row, x => ∃ k, Holds ls k 1 (some k) x ∧ Next ls k row.LINE ∧ row.id = k + 1
  | .stored row, x => ∃ k, Holds ls k 1 (some (k + 1)) x ∧ Next ls k row.LINE ∧ row.id = k + 1
  | .leaving result, x => Free ls x ∧ (result = .exhausted → Done ls x)
  | .returned result, x => result = .exhausted → Done ls x
  | .ended, x => Done ls x
  | _, _ => True

end

variable {queue : Text} {x : Shared}

theorem getD_eq_headD_drop (ls : List Text) (k : Nat) : ls.getD k [] = (ls.drop k).headD [] := by
  simp [List.getD_eq_getElem?_getD, List.headD_eq_head?_getD]

theorem lines_drop (queue : Text) (k : Nat) : lines ((lines queue).drop k).flatten = (lines queue).drop k :=
  lines_flatten_of_sublist (List.drop_sublist _ _)

/-- What `head -n 1` and `sed 1d` see after `k` pops. -/
theorem Holds.lines_queue {k : Nat} {id : Option Nat} (h : Holds (lines queue) k 0 id x) :
    lines x.queue = (lines queue).drop k := by
  rw [h.queue, Nat.add_zero, lines_drop]

theorem Holds.next {ls : List Text} {k : Nat} {id : Option Nat} (h : Holds ls k 0 id x)
    (hne : firstField (ls.getD k []) ≠ []) : Next ls k (firstField (ls.getD k [])) :=
  ⟨(lt_headRun_iff h.le).mpr hne, rfl⟩

theorem Holds.done {ls : List Text} {k : Nat} {id : Option Nat} (h : Holds ls k 0 id x)
    (hnil : firstField (ls.getD k []) = []) : Done ls x := by
  have hend : ¬ k < (headRun ls).length := fun hlt => (lt_headRun_iff h.le).mp hlt hnil
  have hle := h.le
  rw [Done, h.pops, length_popsOf]
  omega

/-- The row is printed when the queue and the test id are those of the next pop already. -/
theorem Holds.printed {ls : List Text} {k : Nat} {LINE : Text} (h : Holds ls k 1 (some (k + 1)) x)
    (hnext : Next ls k LINE) :
    Holds ls (k + 1) 0 (lastId (k + 1)) { x with pops := x.pops ++ [⟨k + 1, LINE⟩] } where
  le := hnext.1
  pops := by rw [h.pops, popsOf_succ, ← hnext.2]
  queue := h.queue
  testId := by
    show x.testId = lastId (k + 1)
    rw [h.testId, lastId, if_neg (Nat.succ_ne_zero k)]

/-- Each command of the critical section leads from its assertion to the next. -/
theorem at_act {l : Location} {f : Shared → Location × Shared} (hcode : code l = .act f)
    (h : At (lines queue) l x) : At (lines queue) (f x).1 (f x).2 := by
  cases l with
  | locked =>
    cases hcode
    obtain ⟨k, hk⟩ := h
    refine ⟨k, hk, ?_⟩
    rw [hk.lines_queue, getD_eq_headD_drop]
  | read LINE =>
    cases hcode
    obtain ⟨k, hk, rfl⟩ := h
    dsimp only
    split
    · rename_i hne
      refine ⟨k, hk, hk.next hne, ?_⟩
      rw [deleteFirst, hk.lines_queue, List.tail_drop]
    · rename_i hnil
      exact ⟨⟨k, hk⟩, fun _ => hk.done (by simpa using hnil)⟩
  | rewriting LINE rest =>
    cases hcode
    obtain ⟨k, hk, hnext, rfl⟩ := h
    exact ⟨k, ⟨hk.le, hk.pops, rfl, hk.testId⟩, hnext⟩
  | removed LINE =>
    cases hcode
    obtain ⟨k, hk, hnext⟩ := h
    refine ⟨k, ⟨hk.le, hk.pops, hk.queue, ?_⟩, hnext⟩
    show some (x.testId.getD 0) = some k
    rw [hk.testId, lastId]
    split
    · rename_i hzero
      rw [hzero]
      rfl
    · rfl
  | numbered LINE =>
    cases hcode
    obtain ⟨k, hk, hnext⟩ := h
    exact ⟨k, hk, hnext, by rw [hk.testId]; rfl⟩
  | counted row =>
    cases hcode
    obtain ⟨k, hk, hnext, hid⟩ := h
    exact ⟨k, ⟨hk.le, hk.pops, hk.queue, by rw [hid]⟩, hnext, hid⟩
  | stored row =>
    cases hcode
    obtain ⟨id, LINE⟩ := row
    obtain ⟨k, hk, hnext, rfl⟩ := h
    refine ⟨⟨k + 1, hk.printed hnext⟩, fun hr => ?_⟩
    cases hr
  | returned result =>
    cases result with
    | exhausted =>
      cases hcode
      exact h rfl
    | busy =>
      cases hcode
      trivial
    | popped row =>
      cases hcode
      trivial
  | running row =>
    cases hcode
    trivial
  | _ => cases hcode

/-- Nothing is popped once all lines in front of the first blank one have been. -/
theorem done_stable {l : Location} {f : Shared → Location × Shared} (hcode : code l = .act f)
    (h : At (lines queue) l x) (hd : Done (lines queue) x) : Done (lines queue) (f x).2 := by
  cases l with
  | stored row =>
    cases hcode
    obtain ⟨k, hk, ⟨hlt, -⟩, -⟩ := h
    rw [Done, hk.pops, length_popsOf] at hd
    omega
  | read LINE =>
    cases hcode
    dsimp only
    split <;> exact hd
  | returned result => cases result <;> cases hcode <;> exact hd
  | _ => cases hcode <;> exact hd

theorem loop_proved (queue : Text) : loop.Proved (Free (lines queue)) (At (lines queue)) where
  won hcode hfree := by
    obtain ⟨rfl, rfl, rfl⟩ := create_cases hcode
    exact hfree
  lost hcode _ := by
    obtain ⟨rfl, rfl, rfl⟩ := create_cases hcode
    intro hr
    cases hr
  act hcode h := at_act hcode h
  remove hcode h := by
    obtain ⟨result, rfl, rfl⟩ := remove_cases hcode
    exact h
  stable {_ k _ _} hcode _ hout h hk := by
    cases k with
    | start => trivial
    | returned result => exact fun hr => done_stable hcode h (hk hr)
    | running row => trivial
    | ended => exact done_stable hcode h hk
    | interrupted => trivial
    | _ => cases hout
  interrupted := trivial

theorem start_asserted (ω : Type) (queue : Text) :
    loop.Asserted (Free (lines queue)) (At (lines queue)) (start ω queue) where
  lock h := by cases h
  one h := by cases h
  held _ := trivial
  free _ := ⟨0, Nat.zero_le _, rfl, by simp [start], rfl⟩

theorem exists_holds_inside {l : Location} (hl : inside l = true) (h : At (lines queue) l x) :
    ∃ k n id, Holds (lines queue) k n id x := by
  cases l with
  | locked =>
    obtain ⟨k, hk⟩ := h
    exact ⟨k, _, _, hk⟩
  | leaving result =>
    obtain ⟨⟨k, hk⟩, -⟩ := h
    exact ⟨k, _, _, hk⟩
  | read LINE | rewriting LINE rest | removed LINE | numbered LINE | counted row | stored row =>
    obtain ⟨k, hk, -⟩ := h
    exact ⟨k, _, _, hk⟩
  | _ => cases hl

section Asserted
variable {ω : Type} {s : State ω Shared Location} (h : loop.Asserted (Free (lines queue)) (At (lines queue)) s)
include h

/-- The record is at every moment that of some number of pops. -/
theorem exists_holds :
    ∃ k n id, Holds (lines queue) k n id s.shared ∧ ((∀ w, inside (s.worker w) = false) → n = 0) := by
  by_cases hall : ∀ w, inside (s.worker w) = false
  · obtain ⟨k, hk⟩ := h.free hall
    exact ⟨k, 0, _, hk, fun _ => rfl⟩
  · obtain ⟨w, hw⟩ := not_forall.mp hall
    obtain ⟨k, n, id, hk⟩ := exists_holds_inside (by simpa using hw) (h.held w)
    exact ⟨k, n, id, hk, fun hout => absurd hout hall⟩

theorem done_of_ended {w : ω} (hw : s.worker w = .ended) : Done (lines queue) s.shared := by
  have hat := h.held w
  rwa [hw] at hat

end Asserted

variable {ω : Type} [DecidableEq ω]

theorem run_asserted {events : List (Event ω)}
    (hq : Run.Allows loop.step loop.Quiet (start ω queue) events) :
    loop.Asserted (Free (lines queue)) (At (lines queue)) (loop.run (start ω queue) events) :=
  (start_asserted ω queue).run loop_disciplined (loop_proved queue) hq

/-- Over every interleaving of any number of workers: the pops are those of the first `k` lines of the queue, none
of them blank, in this order and with the ids from 1 to `k`; between two critical sections the queue has exactly
the other lines; and when a worker has ended, every line in front of the first blank one has been popped. -/
theorem pops_in_order (queue : Text) (events : List (Event ω))
    (hq : Run.Allows loop.step loop.Quiet (start ω queue) events) :
    ∃ k, k ≤ (headRun (lines queue)).length ∧
      (loop.run (start ω queue) events).shared.pops.map Pop.LINE = ((lines queue).take k).map firstField ∧
      (loop.run (start ω queue) events).shared.pops.map Pop.id = List.range' 1 k ∧
      ((∀ w, inside ((loop.run (start ω queue) events).worker w) = false) →
        (loop.run (start ω queue) events).shared.queue = ((lines queue).drop k).flatten) ∧
      ∀ w, (loop.run (start ω queue) events).worker w = .ended → k = (headRun (lines queue)).length := by
  have ha := run_asserted hq
  obtain ⟨k, n, id, hk, hn⟩ := exists_holds ha
  have hlen : k ≤ (lines queue).length := Nat.le_trans hk.le (length_headRun_le _)
  refine ⟨k, hk.le, ?_, ?_, fun hall => ?_, fun w hw => ?_⟩
  · rw [hk.pops, popsOf_LINEs hlen]
  · rw [hk.pops, popsOf_ids]
  · rw [hk.queue, hn hall, Nat.add_zero]
  · rw [← length_popsOf (lines queue) k, ← hk.pops]
    exact done_of_ended ha hw

/-- Two workers, of which the second is refused the lock file once, gets the second line and finds no third. -/
theorem pops_in_order_two_workers :
    let events := ([true, false] ++ List.replicate 8 true ++ List.replicate 30 false).map Event.step
    (loop.run (start Bool "a.lua 1\nb.lua".toList) events).shared.pops.map Pop.LINE =
        ["a.lua".toList, "b.lua".toList] ∧
      (loop.run (start Bool "a.lua 1\nb.lua".toList) events).shared.pops.map Pop.id = [1, 2] := by
  intro events
  obtain ⟨k, -, hlines, hids, -, hended⟩ := pops_in_order "a.lua 1\nb.lua".toList events (loop.allows_steps _ _)
  obtain rfl : k = 2 := (hended false (by decide +kernel)).trans (by decide +kernel)
  refine ⟨hlines.trans (by decide +kernel), hids⟩

end Parallels

end Atf
