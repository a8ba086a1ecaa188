import Atf.Lib.LuaPattern
import Mathlib.Data.List.DropRight

/-!
# Texts in a shell

The fields that `cut` selects, what command substitution leaves of an output, and the words of an expansion
that is not quoted. A text has no NUL. `cut` works line by line, so an assignment is taken apart as it was put
together exactly if its value has neither a separator nor a newline (`cut_assignment_iff`).
-/

namespace Shell
open Lua (Text)

/-- `cut -d sep -f n` of a line: a line without the separator is printed whole. -/
def field (sep : Char) (n : Nat) (line : Text) : Text :=
  if sep ∈ line then ((line.splitOn sep)[n - 1]?).getD [] else line

/-- `$(...)` drops the newlines at the end. -/
def dropNewlines (t : Text) : Text := t.rdropWhile (· = '\n')

/-- `$(echo "$t" | cut -d sep -f n)` -/
def cut (sep : Char) (n : Nat) (t : Text) : Text :=
  dropNewlines (List.intercalate ['\n'] ((t.splitOn '\n').map (field sep n)))

/-- The characters of the default `IFS`. -/
def isIFS (c : Char) : Bool := c = ' ' || c = '\t' || c = '\n'

def isGlob (c : Char) : Bool := c = '*' || c = '?' || c = '[' || c = '\\'

section Cut
variable {sep : Char} {n : Nat} {line v name : Text}

theorem field_of_not_mem (h : sep ∉ line) : field sep n line = line := if_neg h

/-- A part has no separator, and its characters are those of the text. -/
theorem mem_splitOn {t part : Text} (h : part ∈ t.splitOn sep) : sep ∉ part ∧ part ⊆ t := by
  induction t generalizing part with
  | nil =>
    rw [List.splitOn_nil, List.mem_singleton] at h
    rw [h]
    exact ⟨List.not_mem_nil, List.nil_subset _⟩
  | cons c t ih =>
    rw [List.splitOn_cons_eq_if_modifyHead] at h
    split at h
    · rcases List.mem_cons.mp h with rfl | h
      · exact ⟨List.not_mem_nil, List.nil_subset _⟩
      · exact ⟨(ih h).1, List.subset_cons_of_subset _ (ih h).2⟩
    · rename_i hc
      obtain ⟨l, ls, hl⟩ := List.exists_cons_of_ne_nil (List.splitOn_ne_nil sep t)
      rw [hl, List.modifyHead_cons] at h
      rcases List.mem_cons.mp h with rfl | h
      · obtain ⟨hsep, hsub⟩ := ih (hl ▸ List.mem_cons_self ..)
        refine ⟨fun hmem => ?_, List.cons_subset_cons _ hsub⟩
        rcases List.mem_cons.mp hmem with rfl | hmem
        · exact hc (beq_self_eq_true _)
        · exact hsep hmem
      · obtain ⟨hsep, hsub⟩ := ih (hl ▸ List.mem_cons_of_mem _ h)
        exact ⟨hsep, List.subset_cons_of_subset _ hsub⟩

theorem sep_not_mem_field : sep ∉ field sep n line := by
  unfold field
  split
  · cases hf : (line.splitOn sep)[n - 1]? with
    | none => exact List.not_mem_nil
    | some part => exact (mem_splitOn (List.mem_of_getElem? hf)).1
  · assumption

/-- Only newlines are dropped. -/
theorem exists_dropNewlines (t : Text) : ∃ s, (∀ c ∈ s, c = '\n') ∧ dropNewlines t ++ s = t := by
  refine ⟨t.rtakeWhile (· = '\n'), fun c hc => ?_, List.rdropWhile_append_rtakeWhile ..⟩
  have htrue := List.mem_rtakeWhile_imp hc
  exact of_decide_eq_true htrue

theorem dropNewlines_of_not_mem {t : Text} (h : '\n' ∉ t) : dropNewlines t = t :=
  List.rdropWhile_eq_self_iff.mpr fun hne hlast => h (of_decide_eq_true hlast ▸ List.getLast_mem hne)

theorem mem_of_mem_intercalate {c s : Char} {ls : List Text} (h : c ∈ List.intercalate [s] ls) :
    c = s ∨ ∃ l ∈ ls, c ∈ l := by
  induction ls with
  | nil => simp at h
  | cons l ls ih =>
    cases ls with
    | nil => exact .inr ⟨l, by simp, by simpa using h⟩
    | cons l' ls =>
      rw [List.intercalate_cons_cons, List.mem_append, List.mem_append] at h
      rcases h with (h | h) | h
      · exact .inr ⟨l, by simp, h⟩
      · exact .inl (List.mem_singleton.mp h)
      · rcases ih h with rfl | ⟨k, hk, hc⟩
        · exact .inl rfl
        · exact .inr ⟨k, List.mem_cons_of_mem _ hk, hc⟩

theorem sep_not_mem_cut (hsep : sep ≠ '\n') (t : Text) : sep ∉ cut sep n t := by
  intro h
  rcases mem_of_mem_intercalate ((List.rdropWhile_prefix ..).subset h) with rfl | ⟨l, hl, hc⟩
  · exact hsep rfl
  · obtain ⟨line, -, rfl⟩ := List.mem_map.mp hl
    exact sep_not_mem_field hc

theorem map_field_of_not_mem {t : Text} (h : sep ∉ t) : (t.splitOn '\n').map (field sep n) = t.splitOn '\n' := by
  refine (List.map_congr_left fun line hline => field_of_not_mem fun hmem => h ?_).trans (List.map_id' _)
  exact (mem_splitOn hline).2 hmem

/-- The first line of an assignment: its fields are the name and the value. -/
theorem field_assignment (hname : sep ∉ name) (hv : sep ∉ v) :
    field sep 1 (name ++ sep :: v) = name ∧ field sep 2 (name ++ sep :: v) = v := by
  have hmem : sep ∈ name ++ sep :: v := by simp
  rw [field, field, if_pos hmem, if_pos hmem, List.splitOn_append_cons_self_of_not_mem hname,
    List.splitOn_eq_singleton hv]
  exact ⟨rfl, rfl⟩

/-- An assignment is taken apart as it was put together exactly if its value is one line without the separator. -/
theorem cut_assignment_iff (hsep : sep ≠ '\n') (hname : sep ∉ name) (hline : '\n' ∉ name) :
    (cut sep 1 (name ++ sep :: v) = name ∧ cut sep 2 (name ++ sep :: v) = v) ↔ sep ∉ v ∧ '\n' ∉ v := by
  constructor
  · rintro ⟨h1, h2⟩
    have hv : sep ∉ v := h2 ▸ sep_not_mem_cut hsep _
    refine ⟨hv, fun hmem => ?_⟩
    -- the lines behind the first have no separator, so both fields keep them
    obtain ⟨v₁, r, rfl, hv₁⟩ := List.eq_append_cons_of_mem hmem
    have hsep₁ : sep ∉ v₁ := fun h => hv (List.mem_append_left _ h)
    have hsepr : sep ∉ r := fun h => hv (List.mem_append_right _ (List.mem_cons_of_mem _ h))
    have hfirst : '\n' ∉ name ++ sep :: v₁ := by simp [hline, hv₁, Ne.symm hsep]
    obtain ⟨h1', h2'⟩ := field_assignment hname hsep₁
    have hlines : ∀ k, cut sep k (name ++ sep :: (v₁ ++ '\n' :: r)) =
        dropNewlines (field sep k (name ++ sep :: v₁) ++ '\n' :: r) := by
      intro k
      have hassoc : name ++ sep :: (v₁ ++ '\n' :: r) = (name ++ sep :: v₁) ++ '\n' :: r := by simp
      obtain ⟨l, ls, hl⟩ := List.exists_cons_of_ne_nil (List.splitOn_ne_nil '\n' r)
      have hjoin : List.intercalate ['\n'] (r.splitOn '\n') = r := List.intercalate_splitOn '\n'
      rw [hassoc, cut, List.splitOn_append_cons_self_of_not_mem hfirst, List.map_cons, map_field_of_not_mem hsepr, hl,
        List.intercalate_cons_cons, ← hl, hjoin, List.append_assoc]
      rfl
    rw [hlines, h1'] at h1
    rw [hlines, h2'] at h2
    obtain ⟨s, hs, heq⟩ := exists_dropNewlines (name ++ '\n' :: r)
    rw [h1] at heq
    have hr : ∀ c ∈ '\n' :: r, c = '\n' := List.append_cancel_left heq ▸ hs
    have hne : v₁ ++ '\n' :: r ≠ [] := by simp
    have hlast := List.rdropWhile_eq_self_iff.mp h2 hne
    refine hlast (decide_eq_true (hr _ ?_))
    rw [List.getLast_append_of_ne_nil _ (List.cons_ne_nil _ _)]
    exact List.getLast_mem _
  · rintro ⟨hv, hv'⟩
    have hone : '\n' ∉ name ++ sep :: v := by simp [hline, hv', Ne.symm hsep]
    obtain ⟨h1, h2⟩ := field_assignment hname hv
    rw [cut, cut, List.splitOn_eq_singleton hone, List.map_singleton, List.map_singleton, h1, h2]
    simp [dropNewlines_of_not_mem, hline, hv']

theorem head?_dropNewlines {t : Text} {c : Char} (h : t.head? = some c) (hline : c ≠ '\n') :
    (dropNewlines t).head? = some c := by
  obtain ⟨s, hs, heq⟩ := exists_dropNewlines t
  cases hd : dropNewlines t with
  | nil =>
    rw [hd, List.nil_append] at heq
    exact absurd (hs c (heq ▸ List.mem_of_head? h)) hline
  | cons d l =>
    rw [hd] at heq
    rw [← heq] at h
    exact h

theorem splitOn_cons_of_ne {c : Char} (h : c ≠ sep) (t : Text) :
    ∃ part parts, (c :: t).splitOn sep = (c :: part) :: parts := by
  obtain ⟨l, ls, hl⟩ := List.exists_cons_of_ne_nil (List.splitOn_ne_nil sep t)
  exact ⟨l, ls, by rw [List.splitOn_cons_eq_if_modifyHead, if_neg (by simp [h]), hl, List.modifyHead_cons]⟩

/-- The first field begins as the text does. -/
theorem head?_cut_one {t : Text} {c : Char} (h : t.head? = some c) (hsep : c ≠ sep) (hline : c ≠ '\n') :
    (cut sep 1 t).head? = some c := by
  refine head?_dropNewlines ?_ hline
  cases t with
  | nil => cases h
  | cons d t =>
    cases h
    obtain ⟨line, lines, hlines⟩ := splitOn_cons_of_ne hline t
    have hfield : (field sep 1 (c :: line)).head? = some c := by
      unfold field
      split
      · obtain ⟨part, parts, hparts⟩ := splitOn_cons_of_ne hsep line
        rw [hparts]
        rfl
      · rfl
    rw [hlines, List.map_cons]
    cases hf : field sep 1 (c :: line) with
    | nil =>
      rw [hf] at hfield
      cases hfield
    | cons e l =>
      rw [hf] at hfield
      cases lines <;> simpa [List.intercalate_cons_cons] using hfield

end Cut

/-! ### Words -/

/-- A word that an expansion leaves as it is. -/
def Clean (w : Text) : Prop := w ≠ [] ∧ w.all (fun c => !isIFS c && !isGlob c) = true

instance (w : Text) : Decidable (Clean w) := inferInstanceAs (Decidable (_ ∧ _))

theorem Clean.append {v w : Text} (hv : Clean v) (hw : Clean w) : Clean (v ++ w) :=
  ⟨by simp [hv.1], by rw [List.all_append, hv.2, hw.2]; rfl⟩

section Words
variable {glob : Text → List Text} {w : Text} {ws : List Text}

end Words

end Shell
