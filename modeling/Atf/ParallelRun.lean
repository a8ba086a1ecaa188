import Atf.ParallelPops
import Mathlib.Data.List.FinRange
import Mathlib.Data.List.TakeWhile

/-!
# Which scripts of a test set are run

The queue is the test set without its comments, and the workers stop at its first blank line, so what stands
behind a blank line is not run. The number of workers is the number of newlines: a queue of one line without
a newline has none. Otherwise a run in which every worker has ended has popped exactly the lines in front of
the first blank one, and there is such a run: the workers can go one after the other (`leads_ended`).
-/

namespace Atf
namespace Parallels
open TextLines LockFile

/-! ### A worker on its own -/

section Solo
variable (queue : Text)

/-- The files after `k` pops. -/
def files (k : Nat) : Shared := ⟨((lines queue).drop k).flatten, lastId k, popsOf (lines queue) k⟩

variable {queue} {ω : Type} [DecidableEq ω] {worker : ω → Location} {w : ω} {k : Nat}

/-- From the top of the loop to the test of `LINE`. -/
theorem leads_of_read {s : State ω Shared Location}
    (h : loop.Leads
      ⟨true, files queue k, Function.update worker w (.read (firstField ((lines queue).getD k [])))⟩ s) :
    loop.Leads ⟨false, files queue k, Function.update worker w .start⟩ s := by
  have hline : firstField ((lines (files queue k).queue).headD []) = firstField ((lines queue).getD k []) := by
    rw [files, lines_drop, getD_eq_headD_drop]
  refine .of_create rfl (.of_act rfl ?_)
  rwa [hline]

/-- A round of the loop that pops a line. -/
theorem leads_pop (hk : k < (headRun (lines queue)).length) :
    loop.Leads ⟨false, files queue k, Function.update worker w .start⟩
      ⟨false, files queue (k + 1), Function.update worker w .start⟩ := by
  have hne : firstField ((lines queue).getD k []) ≠ [] := (lt_headRun_iff (Nat.le_of_lt hk)).mp hk
  have hrest : deleteFirst (files queue k).queue = (files queue (k + 1)).queue := by
    rw [files, deleteFirst, lines_drop, List.tail_drop, files]
  have hid : (files queue k).testId.getD 0 = k := by
    simp only [files, lastId]
    split
    · rename_i hzero
      exact hzero.symm
    · rfl
  have hfiles : files queue (k + 1) = ⟨(files queue (k + 1)).queue, some (k + 1),
      (files queue k).pops ++ [⟨k + 1, firstField ((lines queue).getD k [])⟩]⟩ := by
    simp [files, lastId, popsOf_succ]
  refine leads_of_read (.of_act rfl ?_)
  rw [if_pos hne, hrest]
  -- the queue, the test id, the row, the lock file, and back in `main`
  refine .of_act rfl (.of_act rfl (.of_act rfl (.of_act rfl (.of_act rfl ?_))))
  refine .of_remove rfl (.of_act rfl (.of_act rfl ?_))
  rw [hfiles]
  simp only [hid, Option.getD_some]
  exact .refl _

/-- The round in which the worker finds a blank line, or none. -/
theorem leads_break : loop.Leads
    ⟨false, files queue (headRun (lines queue)).length, Function.update worker w .start⟩
    ⟨false, files queue (headRun (lines queue)).length, Function.update worker w .ended⟩ := by
  have hnil : ¬ firstField ((lines queue).getD (headRun (lines queue)).length []) ≠ [] := fun hne =>
    Nat.lt_irrefl _ ((lt_headRun_iff (Nat.le_refl _)).mpr hne)
  refine leads_of_read (.of_act rfl ?_)
  rw [if_neg hnil]
  exact .of_remove rfl (.of_act rfl (.refl _))

theorem leads_solo (hk : k ≤ (headRun (lines queue)).length) :
    loop.Leads ⟨false, files queue k, Function.update worker w .start⟩
      ⟨false, files queue (headRun (lines queue)).length, Function.update worker w .ended⟩ := by
  obtain ⟨n, hn⟩ : ∃ n, (headRun (lines queue)).length - k = n := ⟨_, rfl⟩
  induction n generalizing k with
  | zero =>
    have hlast : k = (headRun (lines queue)).length := by omega
    rw [hlast]
    exact leads_break
  | succ n ih => exact (leads_pop (by omega)).trans (ih (by omega) (by omega))

/-- The workers of a list, one after the other. -/
theorem leads_ended (ws : List ω) (hws : ws.Nodup) (hstart : ∀ v ∈ ws, worker v = .start)
    (hk : k ≤ (headRun (lines queue)).length) :
    ∃ k' worker', loop.Leads ⟨false, files queue k, worker⟩ ⟨false, files queue k', worker'⟩ ∧
      (∀ v ∈ ws, worker' v = .ended) ∧ ∀ v ∉ ws, worker' v = worker v := by
  induction ws generalizing worker k with
  | nil => exact ⟨k, worker, .refl _, fun v hv => (by cases hv), fun _ _ => rfl⟩
  | cons w ws ih =>
    obtain ⟨hw, hws⟩ := List.nodup_cons.mp hws
    have hself : Function.update worker w .start = worker := by
      rw [← hstart w List.mem_cons_self, Function.update_eq_self]
    have hsolo : loop.Leads ⟨false, files queue k, Function.update worker w .start⟩
        ⟨false, files queue (headRun (lines queue)).length, Function.update worker w .ended⟩ := leads_solo hk
    rw [hself] at hsolo
    have hne : ∀ v ∈ ws, v ≠ w := by
      rintro v hv rfl
      exact hw hv
    have hstart' : ∀ v ∈ ws, Function.update worker w .ended v = .start := by
      intro v hv
      rw [Function.update_of_ne (hne v hv)]
      exact hstart v (List.mem_cons_of_mem _ hv)
    obtain ⟨k', worker', hleads, hended, hsame⟩ := ih hws hstart' (Nat.le_refl _)
    refine ⟨k', worker', hsolo.trans hleads, fun v hv => ?_, fun v hv => ?_⟩
    · rcases List.mem_cons.mp hv with rfl | hv
      · rw [hsame v hw, Function.update_self]
      · exact hended v hv
    · simp only [List.mem_cons, not_or] at hv
      rw [hsame v hv.2, Function.update_of_ne hv.1]

end Solo

/-- Any number of workers can all come to their end. -/
theorem exists_ended (queue : Text) (n : Nat) :
    ∃ ws : List (Fin n), ∀ w, (loop.run (start (Fin n) queue) (ws.map Event.step)).worker w = .ended := by
  have hfiles : start (Fin n) queue = ⟨false, files queue 0, fun _ => .start⟩ := by
    simp [start, files, lastId, popsOf]
  have hstart : ∀ v ∈ List.finRange n, (start (Fin n) queue).worker v = .start := fun _ _ => rfl
  obtain ⟨k', worker', ⟨ws, hws⟩, hended, -⟩ := leads_ended (List.finRange n) (List.nodup_finRange n) hstart
    (Nat.zero_le (headRun (lines queue)).length)
  refine ⟨ws, fun w => ?_⟩
  rw [hfiles]
  exact hws ▸ hended w (List.mem_finRange w)

/-! ### The test set -/

/-- The lines of the test set that are not comments. -/
def uncommented (testset : Text) : List Text := (lines testset).filter fun line => !isComment (body line)

/-- The lines that are neither comments nor blank. -/
def scripts (testset : Text) : List Text :=
  (lines testset).filter fun line => !isComment (body line) && !isBlank line

/-- Whenever all the workers have ended, each script has its pop. -/
def EveryScriptPopped (testfile testset : Text) (JOBS : Nat) : Prop :=
  ∀ queue, prepareQueue testfile (.file testset) = .ok queue →
    ∀ events : List (Event (Fin (prepareNumOfWorkers queue JOBS))),
      Run.Allows loop.step loop.Quiet (start _ queue) events →
      (∀ w, (loop.run (start _ queue) events).worker w = .ended) →
      ((scripts testset).map firstField).Subperm ((loop.run (start _ queue) events).shared.pops.map Pop.LINE)

/-- No script stands behind a blank line, and the scripts are not just one line without a newline. -/
structure Runnable (testset : Text) : Prop where
  order : (uncommented testset).Pairwise fun line later => isBlank line = true → isBlank later = true
  newline : scripts testset ≠ [] → '\n' ∈ (uncommented testset).flatten

theorem scripts_eq (testset : Text) :
    scripts testset = (uncommented testset).filter fun line => !isBlank line := by
  rw [uncommented, List.filter_filter, scripts]
  congr 1
  funext line
  exact Bool.and_comm _ _

/-- There are as many scripts as lines in front of the first blank one only if no script stands behind it. -/
theorem length_filter_le_iff (ls : List Text) :
    (ls.filter fun line => !isBlank line).length ≤ (headRun ls).length ↔
      ls.Pairwise fun line later => isBlank line = true → isBlank later = true := by
  induction ls with
  | nil => simp [headRun]
  | cons line ls ih =>
    rw [List.pairwise_cons, ← ih]
    cases hb : isBlank line with
    | true =>
      have hrun : headRun (line :: ls) = [] := by simp [headRun, hb]
      have hnil : (ls.filter fun line => !isBlank line) = [] ↔ ∀ later ∈ ls, isBlank later = true := by
        simp [List.filter_eq_nil_iff]
      rw [List.filter_cons_of_neg (by simp [hb]), hrun, List.length_nil, Nat.le_zero, List.length_eq_zero_iff, hnil]
      constructor
      · intro hall
        refine ⟨fun later hl _ => hall later hl, ?_⟩
        rw [hnil.mpr hall]
        exact Nat.zero_le _
      · rintro ⟨hall, -⟩ later hl
        exact hall later hl rfl
    | false => simp [headRun, hb]

theorem headRun_eq_filter {ls : List Text}
    (h : ls.Pairwise fun line later => isBlank line = true → isBlank later = true) :
    headRun ls = ls.filter fun line => !isBlank line := by
  have hsub : (headRun ls).Sublist (ls.filter fun line => !isBlank line) := by
    have hsub : (headRun ls).Sublist ls := List.takeWhile_sublist _
    have hself : (headRun ls).filter (fun line => !isBlank line) = headRun ls :=
      List.filter_eq_self.mpr fun line hl => List.mem_takeWhile_imp (p := fun line => !isBlank line) hl
    rw [← hself]
    exact hsub.filter _
  exact hsub.eq_of_length_le ((length_filter_le_iff ls).mpr h)

section Sets
variable {testfile : Text} (hext : extension testfile = "txt".toList) (testset : Text)
include hext

theorem prepareQueue_txt : prepareQueue testfile (.file testset) = .ok (deleteLines isComment testset) := by
  have hlua : extension testfile ≠ "lua".toList := by
    rw [hext]
    decide
  simp only [prepareQueue, if_neg hlua, if_pos hext]
  rfl

end Sets

/-- What the workers have popped when they have all ended. -/
theorem pops_of_ended {n : Nat} (hn : 0 < n) {queue : Text} {events : List (Event (Fin n))}
    (hq : Run.Allows loop.step loop.Quiet (start (Fin n) queue) events)
    (hended : ∀ w, (loop.run (start (Fin n) queue) events).worker w = .ended) :
    (loop.run (start (Fin n) queue) events).shared.pops.map Pop.LINE = (headRun (lines queue)).map firstField := by
  have ha := run_asserted hq
  obtain ⟨k, m, id, hk, -⟩ := exists_holds ha
  have hdone : Done (lines queue) _ := done_of_ended ha (hended ⟨0, hn⟩)
  have hall : k = (headRun (lines queue)).length := by
    rw [Done, hk.pops, length_popsOf] at hdone
    exact hdone
  have htake : (lines queue).take (headRun (lines queue)).length = headRun (lines queue) :=
    (List.prefix_iff_eq_take.mp (List.takeWhile_prefix _)).symm
  rw [hk.pops, popsOf_LINEs (Nat.le_trans hk.le (length_headRun_le _)), hall, htake]

theorem prepareNumOfWorkers_pos_iff (queue : Text) {JOBS : Nat} (hjobs : 1 ≤ JOBS) :
    0 < prepareNumOfWorkers queue JOBS ↔ '\n' ∈ queue := by
  rw [prepareNumOfWorkers, ← List.count_pos_iff]
  split <;> omega

section
variable {testfile : Text} (hext : extension testfile = "txt".toList) {testset : Text} {JOBS : Nat}
  (hjobs : 1 ≤ JOBS)
include hext hjobs

theorem everyScriptPopped_of_newline (hnl : '\n' ∈ (uncommented testset).flatten) :
    EveryScriptPopped testfile testset JOBS ↔
      (uncommented testset).Pairwise fun line later => isBlank line = true → isBlank later = true := by
  have hn : 0 < prepareNumOfWorkers (deleteLines isComment testset) JOBS :=
    (prepareNumOfWorkers_pos_iff _ hjobs).mpr hnl
  constructor
  · intro h
    obtain ⟨ws, hended⟩ := exists_ended (deleteLines isComment testset)
      (prepareNumOfWorkers (deleteLines isComment testset) JOBS)
    have hq := loop.allows_steps (start _ (deleteLines isComment testset)) ws
    have hsub := h _ (prepareQueue_txt hext testset) _ hq hended
    rw [pops_of_ended hn hq hended, lines_deleteLines, scripts_eq] at hsub
    have hlen := hsub.length_le
    rw [List.length_map, List.length_map] at hlen
    exact (length_filter_le_iff _).mp hlen
  · intro horder queue hqueue events hq hended
    rw [prepareQueue_txt hext] at hqueue
    cases hqueue
    rw [pops_of_ended hn hq hended, lines_deleteLines, scripts_eq]
    exact (List.Perm.of_eq (congrArg _ (headRun_eq_filter horder).symm)).subperm

/-- Without a newline there is no worker. -/
theorem everyScriptPopped_of_no_newline (hnl : '\n' ∉ (uncommented testset).flatten) :
    EveryScriptPopped testfile testset JOBS ↔ scripts testset = [] := by
  have hn : prepareNumOfWorkers (deleteLines isComment testset) JOBS = 0 := by
    have hpos := mt (prepareNumOfWorkers_pos_iff (deleteLines isComment testset) hjobs).mp hnl
    omega
  constructor
  · intro h
    have hnone : ∀ w : Fin (prepareNumOfWorkers (deleteLines isComment testset) JOBS), False := fun w =>
      absurd w.isLt (by omega)
    have hsub := h _ (prepareQueue_txt hext testset) [] trivial fun w => (hnone w).elim
    exact List.map_eq_nil_iff.mp (List.subperm_nil.mp hsub)
  · intro hnil queue _ events _ _
    rw [hnil]
    exact List.nil_subperm

end

/-- With at least one job, every script of a test set is popped in all runs exactly if the test set is runnable. -/
theorem every_script_popped_iff {testfile : Text} (hext : extension testfile = "txt".toList) (testset : Text)
    {JOBS : Nat} (hjobs : 1 ≤ JOBS) : EveryScriptPopped testfile testset JOBS ↔ Runnable testset := by
  by_cases hnl : '\n' ∈ (uncommented testset).flatten
  · rw [everyScriptPopped_of_newline hext hjobs hnl]
    exact ⟨fun horder => ⟨horder, fun _ => hnl⟩, fun h => h.order⟩
  · rw [everyScriptPopped_of_no_newline hext hjobs hnl]
    constructor
    · intro hnil
      refine ⟨(length_filter_le_iff _).mp ?_, fun hne => absurd hnil hne⟩
      rw [← scripts_eq, hnil]
      exact Nat.zero_le _
    · intro h
      by_contra hne
      exact hnl (h.newline hne)

/-- A test set whose last line has no newline, with more jobs than scripts. -/
theorem every_script_popped_sample :
    EveryScriptPopped "set.txt".toList "a.lua ATF-1\n;b.lua\nc.lua".toList 4 := by
  refine (every_script_popped_iff (by decide) _ (by decide)).mpr ⟨?_, fun _ => ?_⟩ <;> decide

/-- Behind a blank line nothing is run, and a single line without a newline has no worker. -/
theorem scripts_left_out :
    ¬ EveryScriptPopped "set.txt".toList "a.lua\n\nb.lua\n".toList 1 ∧
      ¬ EveryScriptPopped "set.txt".toList "a.lua".toList 1 := by
  constructor
  · intro h
    have h := h _ (prepareQueue_txt (by decide) _)
    -- the one worker pops the first line and ends at the second
    have hone : prepareNumOfWorkers (deleteLines isComment "a.lua\n\nb.lua\n".toList) 1 = 1 := by decide
    rw [hone] at h
    have hsub := h ((List.replicate 16 0).map Event.step) (loop.allows_steps _ _) (by decide +kernel)
    exact absurd hsub.length_le (by decide +kernel)
  · intro h
    have h := h _ (prepareQueue_txt (by decide) _)
    have hnone : prepareNumOfWorkers (deleteLines isComment "a.lua".toList) 1 = 0 := by decide
    rw [hnone] at h
    have hsub := h [] trivial fun w => w.elim0
    exact absurd hsub.length_le (by decide)

end Parallels

end Atf
