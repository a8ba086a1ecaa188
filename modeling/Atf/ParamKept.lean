import Atf.ParamLines

/-!
# The lines beside a parameter

A line of a text ends at a line feed, a carriage return or both (`lines`). `setParamValue` takes the two characters of
a CRLF for two line ends, so that a blank line follows each of them, and it does not see a last line without an end.
A value with a line break brings lines of its own. Nothing else is lost or added (`others_set`), so the lines that do
not define the parameter are kept exactly if none of this happens, or if a line is lost and its like is brought in.
-/

namespace Atf
open Lua

namespace SDL
variable {p v line : Text}

/-! ### Lines and definitions -/

/-- The lines of a text behind `line`; with `cr` the last character was a CR, and the LF of a CRLF is skipped. -/
def lines : (cr : Bool) → (line : Text) → Text → List Text
  | _, line, [] => if line = [] then [] else [line]
  | cr, line, c :: s =>
    if cr && c = '\n' then lines false line s
    else if isBreak c then line :: lines (c = '\r') [] s
    else lines false (line ++ [c]) s

/-- `^[%s;]*` .. p .. `%s*=`: the comment marks may stand anywhere in front of the name. -/
def commentedItems (p : Text) : List (CharClass × Repeat) :=
  (.set false [.letter 's', .range ';' ';'], .star) :: (nameItems p ++ [(.letter 's', .star), (.char '=', .one)])

/-- The line defines the parameter, commented or not. -/
def definesParam (p line : Text) : Bool := (doMatch false (commentedItems p) line).isSome

/-- The lines that do not define the parameter. -/
def others (p text : Text) : List Text := (lines false [] text).filter fun line => !definesParam p line

theorem definesParam_iff : definesParam p line = true ↔ ∃ pre w rest,
    line = pre ++ (p ++ (w ++ '=' :: rest)) ∧ (∀ c ∈ pre, isSpace c = true ∨ c = ';') ∧ Blank w := by
  have htest (c : Char) : (CharClass.set false [.letter 's', .range ';' ';']).test c = true ↔
      isSpace c = true ∨ c = ';' := by
    show ((isSpace c || (decide (';' ≤ c) && decide (c ≤ ';') || false)) != false) = true ↔ _
    rw [Bool.bne_false, Bool.or_false, Bool.or_eq_true, Bool.and_eq_true, decide_eq_true_eq, decide_eq_true_eq]
    refine or_congr_right ⟨fun h => Char.le_antisymm h.2 h.1, ?_⟩
    rintro rfl
    exact ⟨Char.le_refl _, Char.le_refl _⟩
  have hnil (s : Text) : (doMatch false [] s).isSome = true := rfl
  rw [definesParam, commentedItems]
  constructor
  · intro h
    obtain ⟨pre, t, rfl, hpre, h⟩ := isSome_maxExpand_iff.mp h
    obtain ⟨w, rest, rfl, hw⟩ := (isSome_name_iff hnil).mp h
    exact ⟨pre, w, rest, rfl, fun c hc => (htest c).mp (hpre c hc), hw⟩
  · rintro ⟨pre, w, rest, rfl, hpre, hw⟩
    refine isSome_maxExpand_iff.mpr ⟨pre, _, rfl, fun c hc => (htest c).mpr (hpre c hc), ?_⟩
    exact (isSome_name_iff hnil).mpr ⟨w, rest, rfl, hw⟩

theorem definesParam_of_isDefinition (h : isDefinition p line = true) : definesParam p line = true := by
  obtain ⟨w₁, marks, w₂, w₃, rest, rfl, hw₁, hmarks, hw₂, hw₃⟩ := isDefinition_iff.mp h
  refine definesParam_iff.mpr ⟨w₁ ++ (marks ++ w₂), w₃, rest, by simp only [List.append_assoc], ?_, hw₃⟩
  intro c hc
  rcases List.mem_append.mp hc with hc | hc
  · exact .inl (hw₁ c hc)
  · rcases List.mem_append.mp hc with hc | hc
    · exact .inr (hmarks c hc)
    · exact .inl (hw₂ c hc)

theorem definesParam_mark (h : definesParam p line = true) : definesParam p (';' :: line) = true := by
  obtain ⟨pre, w, rest, rfl, hpre, hw⟩ := definesParam_iff.mp h
  exact definesParam_iff.mpr ⟨';' :: pre, w, rest, rfl, List.forall_mem_cons.mpr ⟨.inr rfl, hpre⟩, hw⟩

theorem definesParam_nil (p : Text) : definesParam p [] = false := by
  refine Bool.eq_false_of_not_eq_true fun h => ?_
  obtain ⟨pre, w, rest, heq, -⟩ := definesParam_iff.mp h
  simp at heq

/-! ### The lines of a text that is written -/

theorem lines_append (cr : Bool) {acc : Text} (hacc : cr = true → acc = []) (a b : Text) :
    lines cr acc (a ++ '\n' :: b) = lines cr acc (a ++ ['\n']) ++ lines false [] b := by
  have hbreak : isBreak '\n' = true := rfl
  induction a generalizing cr acc with
  | nil =>
    cases cr with
    | true =>
      rw [hacc rfl]
      rfl
    | false =>
      rw [List.nil_append, List.nil_append, lines, lines]
      simp [hbreak, lines]
  | cons c a ih =>
    rw [List.cons_append, List.cons_append, lines, lines]
    split
    · exact ih false nofun
    · split
      · rw [ih _ fun _ => rfl, List.cons_append]
      · exact ih false nofun

theorem lines_oneLine (hline : OneLine line) (acc : Text) : lines false acc (line ++ ['\n']) = [acc ++ line] := by
  induction line generalizing acc with
  | nil => simp [lines, isBreak]
  | cons c line ih =>
    obtain ⟨hc, hline⟩ := List.forall_mem_cons.mp hline
    rw [List.cons_append, lines, Bool.false_and, if_neg Bool.false_ne_true, hc, if_neg Bool.false_ne_true, ih hline,
      List.append_assoc]
    rfl

/-- The lines that the value brings in. -/
def inserted (p v content : Text) : List Text :=
  if (endedLines [] content).any (isDefinition p) then others p (newLine p v ++ ['\n']) else []

/-- The lines beside the parameter, in front of the first line that is written to, and behind it. -/
def before (p content : Text) : List Text :=
  ((endedLines [] content).takeWhile fun line => !isDefinition p line).filter fun line => !definesParam p line

def after (p content : Text) : List Text :=
  ((endedLines [] content).dropWhile fun line => !isDefinition p line).tail.filter fun line => !definesParam p line

theorem filter_setLines_true (p v : Text) (ls : List Text) :
    (setLines p v true ls).filter (fun line => !definesParam p line) = ls.filter fun line => !definesParam p line := by
  induction ls with
  | nil => rfl
  | cons line ls ih =>
    unfold setLines
    split
    · rename_i hdef
      have hold := definesParam_of_isDefinition hdef
      rw [if_pos rfl, List.filter_cons_of_neg (by simp [definesParam_mark hold]),
        List.filter_cons_of_neg (by simp [hold]), ih]
    · rw [List.filter_cons, List.filter_cons, ih]

/-! ### What is written, line by line -/

theorem others_append (p a b : Text) : others p (a ++ '\n' :: b) = others p (a ++ ['\n']) ++ others p b := by
  rw [others, lines_append false nofun, List.filter_append]
  rfl

theorem others_unlines (p : Text) {ls : List Text} (h : ∀ line ∈ ls, OneLine line) :
    others p (unlines ls) = ls.filter fun line => !definesParam p line := by
  induction ls with
  | nil => rfl
  | cons line ls ih =>
    obtain ⟨hline, hls⟩ := List.forall_mem_cons.mp h
    rw [unlines_cons, others_append, ih hls, others, lines_oneLine hline, List.nil_append, ← List.filter_append]
    rfl

/-- The lines beside the parameter that are written: the old ones, and the ones that the value brings in. -/
theorem others_set (p v content : Text) :
    others p (unlines (setLines p v false (endedLines [] content))) =
      before p content ++ (inserted p v content ++ after p content) := by
  have hlines : ∀ line ∈ endedLines [] content, OneLine line := oneLine_endedLines (List.forall_mem_nil _) content
  unfold before inserted after
  generalize endedLines [] content = ls at hlines
  -- up to the first definition the lines are copied, from there on only comment marks are added
  induction ls with
  | nil => rfl
  | cons line ls ih =>
    obtain ⟨hline, hls⟩ := List.forall_mem_cons.mp hlines
    by_cases hdef : isDefinition p line = true
    · have hset : setLines p v false (line :: ls) = newLine p v :: setLines p v true ls := by
        rw [setLines, if_pos hdef]
        rfl
      have hmarked : ∀ line ∈ setLines p v true ls, OneLine line :=  by
        refine oneLine_setLines ?_ hls
        intro h
        cases h
      rw [hset, unlines_cons, others_append, others_unlines p hmarked, filter_setLines_true]
      simp [hdef]
    · have hset : setLines p v false (line :: ls) = line :: setLines p v false ls := by
        rw [setLines, if_neg hdef]
      have hcopy : others p (line ++ ['\n']) = [line].filter fun line => !definesParam p line := by
        rw [others, lines_oneLine hline, List.nil_append]
      rw [hset, unlines_cons, others_append, ih hls, hcopy, ← List.append_assoc, ← List.filter_append]
      simp [hdef]

theorem filter_endedLines (p content : Text) :
    (endedLines [] content).filter (fun line => !definesParam p line) = before p content ++ after p content := by
  unfold before after
  generalize endedLines [] content = ls
  induction ls with
  | nil => rfl
  | cons line ls ih =>
    by_cases hdef : isDefinition p line = true
    · have hold := definesParam_of_isDefinition hdef
      simp [hdef, hold]
    · rw [List.filter_cons, ih]
      by_cases hold : definesParam p line = true
      · simp [hdef, hold]
      · simp [hdef, hold]

/-! ### What is read, line by line -/

/-- The line at the end of the text that is not ended. -/
def unendedLine : (line : Text) → Text → Text
  | line, [] => line
  | line, c :: s => if isBreak c then unendedLine [] s else unendedLine (line ++ [c]) s

/-- The line beside the parameter that is not written again. -/
def lost (p content : Text) : List Text :=
  if unendedLine [] content = [] ∨ definesParam p (unendedLine [] content) = true then [] else [unendedLine [] content]

/-- How often an LF follows a CR. -/
def crlfs : (cr : Bool) → Text → Nat
  | _, [] => 0
  | cr, c :: s => (if cr && c = '\n' then 1 else 0) + crlfs (c = '\r') s

theorem crlfs_eq_zero_iff (cr : Bool) (s : Text) :
    crlfs cr s = 0 ↔ (cr = true → ¬ ['\n'] <+: s) ∧ ¬ ['\r', '\n'] <:+: s := by
  induction s generalizing cr with
  | nil => simp [crlfs]
  | cons c s ih =>
    rw [crlfs, Nat.add_eq_zero_iff, ih, List.infix_cons_iff, List.cons_prefix_cons, List.cons_prefix_cons]
    have hnil : [] <+: s := List.nil_prefix
    have hcr : (decide (c = '\r') = true) ↔ '\r' = c := by
      rw [decide_eq_true_eq]
      exact eq_comm
    have hlf : ((if (cr && decide (c = '\n')) = true then 1 else 0) = 0) ↔ ¬ (cr = true ∧ '\n' = c) := by
      have hcomm : c = '\n' ↔ '\n' = c := eq_comm
      simp [hcomm]
    rw [hlf, hcr]
    tauto

theorem ne_cr_of_not_break {c : Char} (h : ¬ isBreak c = true) : decide (c = '\r') = false := by
  refine decide_eq_false ?_
  rintro rfl
  exact h rfl

/-- Each CRLF is one line end, and two of those that are looked for. -/
theorem count_lines {cr : Bool} {acc : Text} (hacc : cr = true → acc = []) (s : Text) :
    (lines cr acc s).count [] + crlfs cr s = (endedLines acc s).count [] := by
  induction s generalizing cr acc with
  | nil =>
    rw [lines, crlfs, endedLines]
    split
    · rfl
    · rename_i h
      simp [h]
  | cons c s ih =>
    rw [lines, crlfs, endedLines]
    split
    · rename_i hskip
      obtain ⟨rfl, hc⟩ := Bool.and_eq_true_iff.mp hskip
      obtain rfl : c = '\n' := of_decide_eq_true hc
      have hbreak : isBreak '\n' = true := rfl
      have hcr : decide ('\n' = '\r') = false := rfl
      have hs : (lines false [] s).count [] + crlfs false s = (endedLines [] s).count [] := ih nofun
      rw [hacc rfl, if_pos hbreak, List.count_cons_self, hcr, ← hs]
      omega
    · rw [Nat.zero_add]
      split
      · have hs : (lines (c = '\r') [] s).count [] + crlfs (c = '\r') s = (endedLines [] s).count [] := ih fun _ => rfl
        rw [List.count_cons, List.count_cons, ← hs]
        omega
      · rename_i hbreak
        rw [ne_cr_of_not_break hbreak]
        exact ih nofun

/-- Without a CRLF the lines are the ended ones and the one that is left. -/
theorem lines_of_crlfs {cr : Bool} {s : Text} (h : crlfs cr s = 0) (acc : Text) :
    lines cr acc s = endedLines acc s ++ if unendedLine acc s = [] then [] else [unendedLine acc s] := by
  induction s generalizing cr acc with
  | nil => rfl
  | cons c s ih =>
    obtain ⟨hc, hs⟩ := Nat.add_eq_zero_iff.mp h
    have hskip : ¬ (cr && decide (c = '\n')) = true := fun hskip => by simp [hskip] at hc
    rw [lines, if_neg hskip, endedLines, unendedLine]
    split
    · rw [ih hs, List.cons_append]
    · rename_i hbreak
      rw [ne_cr_of_not_break hbreak] at hs
      exact ih hs _

theorem others_of_crlfs (p : Text) {content : Text} (h : crlfs false content = 0) :
    others p content = before p content ++ (after p content ++ lost p content) := by
  rw [others, lines_of_crlfs h, List.filter_append, filter_endedLines, List.append_assoc, lost]
  by_cases hnil : unendedLine [] content = []
  · simp [hnil]
  · by_cases hdef : definesParam p (unendedLine [] content) = true
    · simp [hnil, hdef]
    · simp [hnil, hdef]

/-- The lines that are kept have a blank line more for each CRLF. -/
theorem crlfs_of_others_eq (v : Text) {content : Text}
    (h : before p content ++ (inserted p v content ++ after p content) = others p content) :
    crlfs false content = 0 := by
  have hcount : (before p content ++ after p content).count [] = (endedLines [] content).count [] := by
    rw [← filter_endedLines, List.count_filter]
    rw [definesParam_nil]
    rfl
  have hothers : (others p content).count [] = (lines false [] content).count [] := by
    rw [others, List.count_filter]
    rw [definesParam_nil]
    rfl
  have hlines : (lines false [] content).count [] + crlfs false content = (endedLines [] content).count [] :=
    count_lines (fun _ => rfl) content
  rw [← h, List.count_append, List.count_append] at hothers
  rw [List.count_append] at hcount
  omega

/-! ### Keeping the lines -/

section Rotation
variable {α : Type _} {a b : α} {as : List α}

theorem cons_eq_concat_iff : a :: as = as ++ [b] ↔ a = b ∧ ∀ x ∈ as, x = b := by
  induction as generalizing a with
  | nil => simp
  | cons x as ih =>
    rw [List.cons_append, List.cons_eq_cons, ih, List.forall_mem_cons]
    constructor
    · rintro ⟨rfl, rfl, h⟩
      exact ⟨rfl, rfl, h⟩
    · rintro ⟨rfl, rfl, h⟩
      exact ⟨rfl, rfl, h⟩

end Rotation

theorem inserted_append_after_eq_iff {content : Text} :
    inserted p v content ++ after p content = after p content ++ lost p content ↔
      inserted p v content = [] ∧ lost p content = [] ∨
      ∃ line, inserted p v content = [line] ∧ lost p content = [line] ∧ ∀ l ∈ after p content, l = line := by
  have hlost : lost p content = [] ∨ ∃ line, lost p content = [line] := by
    unfold lost
    split
    · exact .inl rfl
    · exact .inr ⟨_, rfl⟩
  rcases hlost with hlost | ⟨line, hlost⟩
  · rw [hlost, List.append_nil, List.append_left_eq_self]
    simp
  · rw [hlost]
    constructor
    · intro h
      have hlength := congrArg List.length h
      rw [List.length_append, List.length_append, Nat.add_comm, List.length_singleton] at hlength
      obtain ⟨l, hl⟩ := List.length_eq_one_iff.mp (Nat.add_left_cancel hlength)
      rw [hl] at h ⊢
      obtain ⟨rfl, hafter⟩ := cons_eq_concat_iff.mp h
      exact .inr ⟨_, rfl, rfl, hafter⟩
    · rintro (⟨-, h⟩ | ⟨l, hl, h, hafter⟩)
      · cases h
      · cases h
        rw [hl]
        exact cons_eq_concat_iff.mpr ⟨rfl, hafter⟩

/-- `set` succeeds, and keeps the lines without the parameter exactly if no line ends in CRLF and what it puts in
is what it loses: nothing, or a line that all lines behind it are equal to. -/
theorem setParamValue_keeps_iff (hp : ∀ c ∈ p, c.isAlphanum = true) (v content : Text) :
    ∃ written, setParamValue content p v = .ok written ∧
      (others p written = others p content ↔
        ¬ ['\r', '\n'] <:+: content ∧
          (inserted p v content = [] ∧ lost p content = [] ∨
            ∃ line, inserted p v content = [line] ∧ lost p content = [line] ∧ ∀ l ∈ after p content, l = line)) := by
  have hcrlfs : crlfs false content = 0 ↔ ¬ ['\r', '\n'] <:+: content := by
    simp [crlfs_eq_zero_iff]
  refine ⟨_, setParamValue_eq hp content v, ?_⟩
  rw [others_set, ← hcrlfs, ← inserted_append_after_eq_iff]
  constructor
  · intro h
    have hzero := crlfs_of_others_eq v h
    rw [others_of_crlfs p hzero] at h
    exact ⟨hzero, List.append_cancel_left h⟩
  · rintro ⟨hzero, h⟩
    rw [others_of_crlfs p hzero, h]

/-- Lines that end in an LF, blank ones among them, are kept, and the comments too. -/
theorem setParamValue_keeps_lf :
    ∃ written, setParamValue "a=1\n\n;p=0\np=2\n; b\n".toList "p".toList "3".toList = .ok written ∧
      others "p".toList written = ["a=1".toList, [], "; b".toList] := by
  obtain ⟨written, hset, hiff⟩ := setParamValue_keeps_iff (p := "p".toList) (List.all_eq_true.mp rfl) "3".toList
    "a=1\n\n;p=0\np=2\n; b\n".toList
  refine ⟨written, hset, (hiff.mpr ⟨?_, .inl ⟨by decide +kernel, by decide +kernel⟩⟩).trans (by decide +kernel)⟩
  rintro ⟨s, t, h⟩
  have hmem : '\r' ∈ s ++ ['\r', '\n'] ++ t := by simp
  rw [h] at hmem
  exact absurd hmem (by decide)

/-- A CRLF gets a blank line behind it, and a last line without an end is lost. -/
theorem setParamValue_crlf :
    ∃ written, setParamValue "a=1\r\np=2\r\nb=3".toList "p".toList "3".toList = .ok written ∧
      others "p".toList written = ["a=1".toList, [], []] ∧
      others "p".toList "a=1\r\np=2\r\nb=3".toList = ["a=1".toList, "b=3".toList] ∧
      others "p".toList written ≠ others "p".toList "a=1\r\np=2\r\nb=3".toList :=
  ⟨"a=1\n\np = 3\n\n".toList, by decide +kernel, by decide +kernel, by decide +kernel, by decide +kernel⟩

end SDL

end Atf
