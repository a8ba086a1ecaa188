import Atf.ConfigFiles
import Atf.Lib.PatternMatch

/-!
# Reading and writing a parameter

`setParamValue` looks for lines with the parameter by one pattern, which allows comment marks in front, and
`getParamValue` by another, which does not. Both take the parameter's name as a part of the pattern, so for a name of
letters and digits they say how the line can be cut (`isDefinition_iff`, `isAssignment_iff`). What is written is a
function of the lines (`setParamValue_eq`).

The value that was set is the value that is got, unless no line was found to write it to, or the value itself ends in
an equals sign: the reader then takes it for a parameter without a value.
-/

namespace Atf
open Lua

namespace SDL
variable {p line : Text}

/-- The parameter's name as items of a pattern. -/
def nameItems (p : Text) : List (CharClass × Repeat) := p.map fun c => (.char c, .one)

/-! ### The two patterns -/

/-- `^%s*;*%s*` .. pParam .. `%s*=.*` -/
def definitionItems (p : Text) : List (CharClass × Repeat) :=
  [(.letter 's', .star), (.char ';', .star), (.letter 's', .star)] ++
    (nameItems p ++ [(.letter 's', .star), (.char '=', .one)]) ++ [(.any, .star)]

/-- `^%s*` .. pParam .. `%s*=%s*` -/
def assignmentItems (p : Text) : List (CharClass × Repeat) :=
  (.letter 's', .star) :: (nameItems p ++ [(.letter 's', .star), (.char '=', .one), (.letter 's', .star)])

/-- The line is one that `setParamValue` writes to. -/
def isDefinition (p line : Text) : Bool := (doMatch false (definitionItems p) line).isSome

/-- The line is one that `getParamValue` reads from. -/
def isAssignment (p line : Text) : Bool := (doMatch false (assignmentItems p) line).isSome

section Patterns
variable (hp : ∀ c ∈ p, c.isAlphanum = true)
include hp

theorem compile_definition :
    compile ("^%s*;*%s*".toList ++ p ++ "%s*=.*".toList) = .ok ⟨true, definitionItems p, false⟩ := by
  have htail : Compiles "%s*=.*".toList [(.letter 's', .star), (.char '=', .one), (.any, .star)] false :=
    .spaces (.item (by simp) rfl rfl (by simp) (.item (by simp) rfl rfl (by simp) .nil))
  have hword := Compiles.word hp (by simp [Compiles.IsRepeat]) htail
  have hmarks : Compiles (';' :: '*' :: '%' :: 's' :: '*' :: (p ++ "%s*=.*".toList)) _ false :=
    .item (by simp) rfl rfl (by simp) (.spaces hword)
  have h := (Compiles.spaces hmarks).anchored
  simp only [definitionItems, nameItems, List.cons_append, List.nil_append, List.append_assoc]
  exact h

theorem compile_assignment :
    compile ("^%s*".toList ++ p ++ "%s*=%s*".toList) = .ok ⟨true, assignmentItems p, false⟩ := by
  have htail : Compiles "%s*=%s*".toList [(.letter 's', .star), (.char '=', .one), (.letter 's', .star)] false :=
    .spaces (.item (by simp) rfl rfl (by simp) (.spaces .nil))
  have hword := Compiles.word hp (by simp [Compiles.IsRepeat]) htail
  exact (Compiles.spaces hword).anchored

theorem find_definition (line : Text) :
    find line ("^%s*;*%s*".toList ++ p ++ "%s*=.*".toList) =
      .ok ((doMatch false (definitionItems p) line).map fun rest => (line, rest)) := by
  rw [find, compile_definition hp]
  exact congrArg Except.ok (search_anchored ..)

theorem find_assignment (line : Text) :
    find line ("^%s*".toList ++ p ++ "%s*=%s*".toList) =
      .ok ((doMatch false (assignmentItems p) line).map fun rest => (line, rest)) := by
  rw [find, compile_assignment hp]
  exact congrArg Except.ok (search_anchored ..)

end Patterns

/-- A run of white space. -/
def Blank (s : Text) : Prop := ∀ c ∈ s, isSpace c = true

theorem isSome_spaces_iff {items : List (CharClass × Repeat)} {atEnd : Bool} {s : Text} :
    (doMatch atEnd ((.letter 's', .star) :: items) s).isSome = true ↔
      ∃ w rest, s = w ++ rest ∧ Blank w ∧ (doMatch atEnd items rest).isSome = true :=
  isSome_maxExpand_iff

/-- The name and an equals sign, whatever the items behind it are that match every text. -/
theorem isSome_name_iff {items : List (CharClass × Repeat)} (hitems : ∀ s, (doMatch false items s).isSome = true)
    {s : Text} :
    (doMatch false (nameItems p ++ ((.letter 's', .star) :: (.char '=', .one) :: items)) s).isSome = true ↔
      ∃ w rest, s = p ++ (w ++ '=' :: rest) ∧ Blank w := by
  rw [nameItems, isSome_doMatch_word_iff]
  constructor
  · rintro ⟨t, rfl, h⟩
    obtain ⟨w, t, rfl, hw, h⟩ := isSome_spaces_iff.mp h
    obtain ⟨c, rest, rfl, hc, -⟩ := isSome_matchOne_iff.mp h
    obtain rfl : '=' = c := of_decide_eq_true hc
    exact ⟨w, rest, rfl, hw⟩
  · rintro ⟨w, rest, rfl, hw⟩
    refine ⟨_, rfl, isSome_spaces_iff.mpr ⟨w, _, rfl, hw, ?_⟩⟩
    exact isSome_matchOne_iff.mpr ⟨'=', rest, rfl, rfl, hitems rest⟩

theorem isDefinition_iff : isDefinition p line = true ↔ ∃ w₁ marks w₂ w₃ rest,
    line = w₁ ++ (marks ++ (w₂ ++ (p ++ (w₃ ++ '=' :: rest)))) ∧ Blank w₁ ∧ (∀ c ∈ marks, c = ';') ∧ Blank w₂ ∧
      Blank w₃ := by
  have hany (s : Text) : (doMatch false [(.any, .star)] s).isSome = true := by
    rw [show doMatch false [(.any, .star)] s = some [] from maxExpand_any (fun _ => rfl) s]
    rfl
  have hitems : definitionItems p = (.letter 's', .star) :: (.char ';', .star) :: (.letter 's', .star) ::
      (nameItems p ++ ((.letter 's', .star) :: (.char '=', .one) :: [(.any, .star)])) := by
    simp [definitionItems]
  rw [isDefinition, hitems, isSome_spaces_iff]
  constructor
  · rintro ⟨w₁, t, rfl, hw₁, h⟩
    obtain ⟨marks, t, rfl, hmarks, h⟩ := isSome_maxExpand_iff.mp h
    obtain ⟨w₂, t, rfl, hw₂, h⟩ := isSome_spaces_iff.mp h
    obtain ⟨w₃, rest, rfl, hw₃⟩ := (isSome_name_iff hany).mp h
    exact ⟨w₁, marks, w₂, w₃, rest, rfl, hw₁, fun c hc => (of_decide_eq_true (hmarks c hc)).symm, hw₂, hw₃⟩
  · rintro ⟨w₁, marks, w₂, w₃, rest, rfl, hw₁, hmarks, hw₂, hw₃⟩
    refine ⟨w₁, _, rfl, hw₁, isSome_maxExpand_iff.mpr ⟨marks, _, rfl, fun c hc => ?_, ?_⟩⟩
    · exact decide_eq_true (hmarks c hc).symm
    · exact isSome_spaces_iff.mpr ⟨w₂, _, rfl, hw₂, (isSome_name_iff hany).mpr ⟨w₃, rest, rfl, hw₃⟩⟩

theorem isAssignment_iff : isAssignment p line = true ↔ ∃ w₁ w₃ rest,
    line = w₁ ++ (p ++ (w₃ ++ '=' :: rest)) ∧ Blank w₁ ∧ Blank w₃ := by
  have hspaces (s : Text) : (doMatch false [(.letter 's', .star)] s).isSome = true :=
    isSome_spaces_iff.mpr ⟨[], s, rfl, List.forall_mem_nil _, rfl⟩
  rw [isAssignment, assignmentItems, isSome_spaces_iff]
  constructor
  · rintro ⟨w₁, t, rfl, hw₁, h⟩
    obtain ⟨w₃, rest, rfl, hw₃⟩ := (isSome_name_iff hspaces).mp h
    exact ⟨w₁, w₃, rest, rfl, hw₁, hw₃⟩
  · rintro ⟨w₁, w₃, rest, rfl, hw₁, hw₃⟩
    exact ⟨w₁, _, rfl, hw₁, (isSome_name_iff hspaces).mpr ⟨w₃, rest, rfl, hw₃⟩⟩

/-- What is read from can be written to. -/
theorem isDefinition_of_isAssignment (h : isAssignment p line = true) : isDefinition p line = true := by
  obtain ⟨w₁, w₃, rest, rfl, hw₁, hw₃⟩ := isAssignment_iff.mp h
  exact isDefinition_iff.mpr
    ⟨w₁, [], [], w₃, rest, rfl, hw₁, List.forall_mem_nil _, List.forall_mem_nil _, hw₃⟩

/-! ### Writing -/

/-- The text that takes the place of the first line with the parameter. -/
def newLine (p v : Text) : Text := if v = [';'] then ';' :: (p ++ " = ".toList) else p ++ " = ".toList ++ v

/-- The lines that are written. -/
def setLines (p v : Text) : (found : Bool) → List Text → List Text
  | _, [] => []
  | found, line :: lines =>
    if isDefinition p line then (if found then ';' :: line else newLine p v) :: setLines p v true lines
    else line :: setLines p v found lines

/-- Lines with their line breaks. -/
def unlines (lines : List Text) : Text := lines.flatMap (· ++ ['\n'])

theorem unlines_cons (line : Text) (lines : List Text) : unlines (line :: lines) = line ++ '\n' :: unlines lines := by
  rw [unlines, List.flatMap_cons, List.append_assoc]
  rfl

/-- Each `%` of the value, doubled for the replacement. -/
def double (v : Text) : Text := v.flatMap fun c => if c = '%' then ['%', '%'] else [c]

theorem double_eq_mark_iff (v : Text) : double v = [';'] ↔ v = [';'] := by
  constructor
  · intro h
    have hexpand := expandReplacement_double [] v
    rw [← double, h] at hexpand
    exact (Except.ok.inj hexpand).symm
  · rintro rfl
    rfl

theorem percent_not_mem (hp : ∀ c ∈ p, c.isAlphanum = true) : '%' ∉ p := fun h => absurd (hp _ h) (by decide)

/-- The whole line is replaced. -/
theorem gsub_definition (hp : ∀ c ∈ p, c.isAlphanum = true) (h : isDefinition p line = true) {repl r : Text}
    (hr : ∀ whole, expandReplacement whole repl = .ok r) :
    gsubAnchored line ("^%s*;*%s*".toList ++ p ++ "%s*=.*".toList) repl = .ok r := by
  obtain ⟨rest, hrest⟩ := Option.isSome_iff_exists.mp h
  obtain rfl : rest = [] := eq_nil_of_doMatch_any hrest
  rw [gsubAnchored, compile_definition hp]
  simp only [bind, Except.bind, hrest, hr]
  exact congrArg Except.ok (List.append_nil r)

theorem setParamValueIn_eq (hp : ∀ c ∈ p, c.isAlphanum = true) (v : Text) (found : Bool) (lines : List Text) :
    setParamValueIn p (double v) found lines = .ok (unlines (setLines p v found lines)) := by
  induction lines generalizing found with
  | nil => rfl
  | cons line lines ih =>
    unfold setParamValueIn setLines
    dsimp only
    rw [find_definition hp]
    have hfold : (doMatch false (definitionItems p) line).isSome = isDefinition p line := rfl
    simp only [bind, Except.bind, Option.isSome_map, hfold, ih]
    by_cases hdef : isDefinition p line = true
    · rw [if_pos hdef, if_pos hdef, unlines_cons]
      cases found with
      | true => rfl
      | false =>
        simp only [Bool.false_eq_true, if_false, double_eq_mark_iff, newLine]
        have hname : '%' ∉ p ++ " = ".toList := by
          rw [List.mem_append, not_or]
          exact ⟨percent_not_mem hp, by decide⟩
        by_cases hv : v = [';']
        · subst hv
          have hmark : '%' ∉ [';'] ++ p ++ " = ".toList := by
            rw [List.append_assoc, List.mem_append, not_or]
            exact ⟨by decide, hname⟩
          rw [if_pos rfl, if_pos rfl, gsub_definition hp hdef (r := [';'] ++ p ++ " = ".toList)]
          · rfl
          · intro whole
            have hexpand : expandReplacement whole ([';'] ++ p ++ " = ".toList ++ []) =
              .ok ([';'] ++ p ++ " = ".toList ++ []) := expandReplacement_append hmark rfl
            rwa [List.append_nil] at hexpand
        · rw [if_neg hv, if_neg hv, gsub_definition hp hdef (r := p ++ " = ".toList ++ v)]
          · rfl
          · intro whole
            exact expandReplacement_append hname (expandReplacement_double whole v)
    · rw [if_neg hdef, if_neg hdef, unlines_cons]
      rfl

/-- The lines that end in a break, with the parameter's line replaced. -/
theorem setParamValue_eq (hp : ∀ c ∈ p, c.isAlphanum = true) (content v : Text) :
    setParamValue content p v = .ok (unlines (setLines p v false (endedLines [] content))) :=
  setParamValueIn_eq hp v false _

/-! ### Reading -/

/-- The text ends in an equals sign, but for white space. -/
def EndsAssigned (s : Text) : Prop := ∃ pre w, s = pre ++ '=' :: w ∧ Blank w

theorem find_empty_isSome_iff (line : Text) :
    ∃ found, find line "%s*=%s*$".toList = .ok found ∧ (found.isSome = true ↔ EndsAssigned line) := by
  have hcompile : compile "%s*=%s*$".toList =
      .ok ⟨false, [(.letter 's', .star), (.char '=', .one), (.letter 's', .star)], true⟩ := rfl
  refine ⟨_, by rw [find, hcompile]; rfl, ?_⟩
  rw [isSome_search_iff rfl]
  constructor
  · rintro ⟨pre, t, rfl, h⟩
    obtain ⟨w, t, rfl, -, h⟩ := isSome_spaces_iff.mp h
    obtain ⟨c, t, rfl, hc, h⟩ := isSome_matchOne_iff.mp h
    obtain rfl : '=' = c := of_decide_eq_true hc
    obtain ⟨w', t, rfl, hw', h⟩ := isSome_spaces_iff.mp h
    obtain rfl : t = [] := by
      cases t with
      | nil => rfl
      | cons c t => cases h
    rw [List.append_nil]
    exact ⟨pre ++ w, w', by rw [List.append_assoc], hw'⟩
  · rintro ⟨pre, w, rfl, hw⟩
    refine ⟨pre, '=' :: w, rfl, isSome_spaces_iff.mpr ⟨[], _, rfl, List.forall_mem_nil _, ?_⟩⟩
    refine isSome_matchOne_iff.mpr ⟨'=', w, rfl, rfl, isSome_spaces_iff.mpr ⟨w, [], ?_, hw, rfl⟩⟩
    rw [List.append_nil]

theorem isSpace_alphanum {c : Char} (hc : c.isAlphanum = true) : isSpace c = false := by
  refine decide_eq_false fun hmem => ?_
  simp only [List.mem_cons, List.not_mem_nil, or_false] at hmem
  rcases hmem with rfl | rfl | rfl | rfl | rfl | rfl <;> exact absurd hc (by decide)

section Value
variable {v : Text} {c : Char} (hp : ∀ c ∈ p, c.isAlphanum = true) (hc : isSpace c = false)
include hp hc

/-- The line with the value ends in an equals sign if the value does. -/
theorem endsAssigned_line_iff : EndsAssigned (p ++ " = ".toList ++ c :: v) ↔ EndsAssigned (c :: v) := by
  have hname : '=' ∉ p ++ [' '] := by
    rw [List.mem_append, not_or]
    exact ⟨fun h => absurd (hp _ h) (by decide), by decide⟩
  have hline : p ++ " = ".toList ++ c :: v = (p ++ [' ']) ++ '=' :: ' ' :: c :: v := by simp
  rw [hline]
  constructor
  · rintro ⟨pre, w, heq, hw⟩
    have hfirst : ' ' :: c :: v ≠ w := by
      rintro rfl
      rw [hw c (List.mem_cons_of_mem _ List.mem_cons_self)] at hc
      cases hc
    rcases List.append_eq_append_iff.mp heq with ⟨a, -, ha⟩ | ⟨b, hb, hw'⟩
    · rcases a with _ | ⟨_, _ | ⟨_, a⟩⟩
      · cases ha
        exact absurd rfl hfirst
      · cases ha
      · obtain ⟨-, hspace⟩ := List.cons.inj ha
        obtain ⟨-, hvalue⟩ := List.cons.inj hspace
        exact ⟨a, w, hvalue, hw⟩
    · rcases b with _ | ⟨_, b⟩
      · cases hw'
        exact absurd rfl hfirst
      · cases hw'
        exact absurd (hb ▸ List.mem_append_right _ List.mem_cons_self) hname
  · rintro ⟨pre, w, heq, hw⟩
    refine ⟨(p ++ [' ']) ++ '=' :: ' ' :: pre, w, ?_, hw⟩
    rw [heq, List.append_assoc (p ++ [' '])]
    rfl

/-- The value begins at the first character behind the equals sign that is no white space. -/
theorem find_value : find (p ++ " = ".toList ++ c :: v) "%s*=%s*.".toList = .ok (some (" = ".toList ++ c :: v, v)) := by
  have hcompile : compile "%s*=%s*.".toList =
      .ok ⟨false, [(.letter 's', .star), (.char '=', .one), (.letter 's', .star), (.any, .one)], false⟩ := rfl
  have hskip : ∀ d ∈ p, ∀ t,
      doMatch false [(.letter 's', .star), (.char '=', .one), (.letter 's', .star), (.any, .one)] (d :: t) = none := by
    intro d hd t
    have hspace : (CharClass.letter 's').test d = false := isSpace_alphanum (hp d hd)
    have hequals : (CharClass.char '=').test d = false := by
      refine decide_eq_false ?_
      rintro rfl
      exact absurd (hp _ hd) (by decide)
    simp only [doMatch, maxExpand, hspace, matchOne, hequals, Bool.false_eq_true, if_false]
  have hspace : (CharClass.letter 's').test c = false := hc
  rw [find, hcompile, List.append_assoc]
  refine congrArg Except.ok ((search_skip rfl _ hskip).trans ?_)
  have hmatch : doMatch false [(.letter 's', .star), (.char '=', .one), (.letter 's', .star), (.any, .one)]
      (' ' :: '=' :: ' ' :: c :: v) = some v := by
    have hblank : (CharClass.letter 's').test ' ' = true := rfl
    have hequals : (CharClass.letter 's').test '=' = false := rfl
    have hsign : (CharClass.char '=').test '=' = true := rfl
    have hany : CharClass.any.test c = true := rfl
    simp [doMatch, maxExpand, matchOne, hblank, hequals, hspace, hsign, hany]
  show search _ (' ' :: '=' :: ' ' :: c :: v) = _
  rw [search, hmatch]
  rfl

theorem lineValue_line : ∃ value, lineValue (p ++ " = ".toList ++ c :: v) = .ok (some value) ∧
    (value = c :: v ↔ ¬ EndsAssigned (c :: v)) := by
  obtain ⟨found, hfind, hfound⟩ := find_empty_isSome_iff (p ++ " = ".toList ++ c :: v)
  rw [endsAssigned_line_iff hp hc] at hfound
  rw [lineValue, hfind]
  by_cases hends : EndsAssigned (c :: v)
  · have hsome := hfound.mpr hends
    refine ⟨[], ?_, iff_of_false nofun (not_not_intro hends)⟩
    simp only [bind, Except.bind, hsome, if_true]
    rfl
  · have hnone : found.isSome = false := by
      rw [← Bool.not_eq_true, hfound]
      exact hends
    refine ⟨c :: v, ?_, iff_of_true rfl hends⟩
    simp only [bind, Except.bind, hnone, Bool.false_eq_true, if_false, find_value hp hc]
    show Except.ok (some ((" = ".toList ++ c :: v).drop ((v.length + 4) - v.length - 1))) = _
    rw [Nat.add_sub_cancel_left]
    rfl

end Value

/-! ### Lines -/

/-- No line break in it. -/
def OneLine (s : Text) : Prop := ∀ c ∈ s, isBreak c = false

theorem isBreak_alphanum {c : Char} (hc : c.isAlphanum = true) : isBreak c = false := by
  rw [isBreak, Bool.or_eq_false_iff]
  refine ⟨decide_eq_false ?_, decide_eq_false ?_⟩
  · rintro rfl
    exact absurd hc (by decide)
  · rintro rfl
    exact absurd hc (by decide)

theorem filledLines_append {line : Text} (hline : OneLine line) (acc s : Text) :
    filledLines acc (line ++ '\n' :: s) =
      if acc ++ line = [] then filledLines [] s else (acc ++ line) :: filledLines [] s := by
  induction line generalizing acc with
  | nil =>
    have hbreak : isBreak '\n' = true := rfl
    rw [List.nil_append, filledLines, if_pos hbreak, List.append_nil]
  | cons c line ih =>
    obtain ⟨hc, hline⟩ := List.forall_mem_cons.mp hline
    rw [List.cons_append, filledLines, hc, if_neg Bool.false_ne_true, ih hline, List.append_assoc]
    rfl

/-- The lines that are not empty are read back. -/
theorem filledLines_unlines {lines : List Text} (h : ∀ line ∈ lines, OneLine line) :
    filledLines [] (unlines lines) = lines.filter (fun line => !line.isEmpty) := by
  induction lines with
  | nil => rfl
  | cons line lines ih =>
    obtain ⟨hline, hlines⟩ := List.forall_mem_cons.mp h
    rw [unlines_cons, filledLines_append hline, List.nil_append, ih hlines]
    cases line with
    | nil => rfl
    | cons c line => rfl

theorem oneLine_endedLines {acc : Text} (hacc : OneLine acc) (s : Text) :
    ∀ line ∈ endedLines acc s, OneLine line := by
  induction s generalizing acc with
  | nil => exact List.forall_mem_nil _
  | cons c s ih =>
    unfold endedLines
    by_cases hc : isBreak c = true
    · rw [if_pos hc]
      exact List.forall_mem_cons.mpr ⟨hacc, ih (List.forall_mem_nil _)⟩
    · rw [if_neg hc]
      refine ih ?_
      intro d hd
      rcases List.mem_append.mp hd with hd | hd
      · exact hacc d hd
      · rw [List.mem_singleton.mp hd]
        exact Bool.eq_false_of_not_eq_true hc

theorem oneLine_setLines {v : Text} {found : Bool} (hnew : found = false → OneLine (newLine p v)) {lines : List Text}
    (h : ∀ line ∈ lines, OneLine line) : ∀ line ∈ setLines p v found lines, OneLine line := by
  induction lines generalizing found with
  | nil => exact List.forall_mem_nil _
  | cons line lines ih =>
    obtain ⟨hline, hlines⟩ := List.forall_mem_cons.mp h
    unfold setLines
    split
    · refine List.forall_mem_cons.mpr ⟨?_, ih nofun hlines⟩
      cases found with
      | true => exact List.forall_mem_cons.mpr ⟨rfl, hline⟩
      | false => exact hnew rfl
    · exact List.forall_mem_cons.mpr ⟨hline, ih hnew hlines⟩

/-! ### Reading what was written -/

theorem getParamValueIn_skip (hp : ∀ c ∈ p, c.isAlphanum = true) (hread : ¬ isAssignment p line = true)
    (lines : List Text) : getParamValueIn p (line :: lines) = getParamValueIn p lines := by
  have hnone : (doMatch false (assignmentItems p) line).isSome = false := Bool.eq_false_of_not_eq_true hread
  rw [getParamValueIn, find_assignment hp]
  simp only [bind, Except.bind, Option.isSome_map, hnone, Bool.false_eq_true, if_false]

theorem getParamValueIn_read (hp : ∀ c ∈ p, c.isAlphanum = true) (hread : isAssignment p line = true) {value : Text}
    (hvalue : lineValue line = .ok (some value)) (lines : List Text) :
    getParamValueIn p (line :: lines) = .ok (some value) := by
  have hsome : (doMatch false (assignmentItems p) line).isSome = true := hread
  rw [getParamValueIn, find_assignment hp]
  simp only [bind, Except.bind, Option.isSome_map, hsome, if_true, hvalue]
  rfl

/-- The first line with a value is the one that was written, if there is one. -/
theorem getParamValueIn_setLines (hp : ∀ c ∈ p, c.isAlphanum = true) {v value : Text} (hne : newLine p v ≠ [])
    (hnew : isAssignment p (newLine p v) = true) (hvalue : lineValue (newLine p v) = .ok (some value))
    (lines : List Text) :
    getParamValueIn p ((setLines p v false lines).filter fun line => !line.isEmpty) =
      .ok (if lines.any (isDefinition p) then some value else none) := by
  induction lines with
  | nil => rfl
  | cons line lines ih =>
    unfold setLines
    rw [List.any_cons]
    by_cases hdef : isDefinition p line = true
    · rw [if_pos hdef, hdef, Bool.true_or, if_pos rfl, if_neg Bool.false_ne_true,
        List.filter_cons_of_pos (by simpa using hne), getParamValueIn_read hp hnew hvalue]
    · rw [if_neg hdef, Bool.eq_false_of_not_eq_true hdef, Bool.false_or]
      have hread : ¬ isAssignment p line = true := mt isDefinition_of_isAssignment hdef
      by_cases hempty : line.isEmpty = true
      · rw [List.filter_cons_of_neg (by simpa using hempty), ih]
      · rw [List.filter_cons_of_pos (by simpa using hempty), getParamValueIn_skip hp hread, ih]

/-- What was set is got exactly if there was a line to write it to, with its comment marks in one run, and the value
does not end in an equals sign. -/
theorem getParamValue_setParamValue_iff (hp : ∀ c ∈ p, c.isAlphanum = true) (content : Text) {v : Text} (hne : v ≠ [])
    (hline : OneLine v) (hspace : ∀ c ∈ v.head?, isSpace c = false) (hmark : v ≠ [';']) :
    (setParamValue content p v >>= fun content => getParamValue content p) = .ok (some v) ↔
      (∃ line ∈ endedLines [] content, isDefinition p line = true) ∧ ¬ EndsAssigned v := by
  obtain ⟨c, v, rfl⟩ := List.exists_cons_of_ne_nil hne
  have hc : isSpace c = false := hspace c rfl
  obtain ⟨value, hvalue, hiff⟩ := lineValue_line (v := v) hp hc
  have hnew : newLine p (c :: v) = p ++ " = ".toList ++ c :: v := if_neg hmark
  have hsign : ∀ d ∈ " = ".toList, isBreak d = false := by simp [isBreak]
  have hone : OneLine (newLine p (c :: v)) := by
    rw [hnew]
    intro d hd
    rcases List.mem_append.mp hd with hd | hd
    · rcases List.mem_append.mp hd with hd | hd
      · exact isBreak_alphanum (hp d hd)
      · exact hsign d hd
    · exact hline d hd
  have hassign : isAssignment p (newLine p (c :: v)) = true := by
    rw [hnew, List.append_assoc]
    exact isAssignment_iff.mpr ⟨[], [' '], ' ' :: c :: v, rfl, List.forall_mem_nil _, List.forall_mem_singleton.mpr rfl⟩
  have hget : (setParamValue content p (c :: v) >>= fun content => getParamValue content p) =
      .ok (if (endedLines [] content).any (isDefinition p) then some value else none) := by
    rw [setParamValue_eq hp]
    show getParamValueIn p (filledLines [] _) = _
    rw [filledLines_unlines (oneLine_setLines (fun _ => hone) (oneLine_endedLines (List.forall_mem_nil _) _))]
    exact getParamValueIn_setLines hp (by rw [hnew]; simp) hassign (hnew ▸ hvalue) _
  rw [hget, ← hiff, ← List.any_eq_true]
  split
  · rename_i hany
    simp [hany]
  · rename_i hany
    simp [hany]

/-- A line that is commented out is written to, and its value is got. -/
theorem getParamValue_setParamValue_commented :
    (setParamValue "a=1\n ;p=2\n".toList "p".toList "50%".toList >>= fun content => getParamValue content "p".toList) =
      .ok (some "50%".toList) := by
  have hp : ∀ c ∈ "p".toList, c.isAlphanum = true := List.all_eq_true.mp rfl
  have hline : OneLine "50%".toList := by
    simp [OneLine, isBreak]
  have hspace : ∀ c, "50%".toList.head? = some c → isSpace c = false := by
    intro c hc
    cases hc
    rfl
  refine (getParamValue_setParamValue_iff hp _ (by decide) hline hspace (by decide)).mpr ⟨?_, ?_⟩
  · exact ⟨" ;p=2".toList, by decide +kernel, by decide +kernel⟩
  · rintro ⟨pre, w, heq, -⟩
    have hmem : '=' ∈ "50%".toList := heq ▸ List.mem_append_right _ List.mem_cons_self
    exact absurd hmem (by decide)

/-- A value that ends in an equals sign is got as no value; a line with its comment marks apart is not written to. -/
theorem getParamValue_setParamValue_lost :
    (setParamValue "p=1\n".toList "p".toList "a=".toList >>= fun content => getParamValue content "p".toList) =
        .ok (some []) ∧
      (setParamValue "; ;p=1\n".toList "p".toList "a".toList >>= fun content => getParamValue content "p".toList) =
        .ok none := by
  constructor <;> decide +kernel

end SDL

end Atf
