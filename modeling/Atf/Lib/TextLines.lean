/-!
# Lines of a text

The line tools read a text line by line, and the last line may lack its newline. A line keeps its newline
here, so a text is the concatenation of its lines (`flatten_lines`) and a tool that drops lines leaves exactly
the others, unterminated last line included (`lines_flatten_of_sublist`).
-/

namespace TextLines

/-- The lines, each with its newline if it has one. -/
def lines : List Char → List (List Char)
  | [] => []
  | c :: cs =>
    if c = '\n' then [c] :: lines cs
    else match lines cs with
      | [] => [[c]]
      | l :: ls => (c :: l) :: ls

/-- The line without its newline. -/
def body (line : List Char) : List Char := line.takeWhile (· ≠ '\n')

/-- The text without the lines for which `p` holds. -/
def deleteLines (p : List Char → Bool) (t : List Char) : List Char :=
  ((lines t).filter fun line => !p (body line)).flatten

/-- The text without its first line. -/
def deleteFirst (t : List Char) : List Char := (lines t).tail.flatten

@[simp] theorem flatten_lines (t : List Char) : (lines t).flatten = t := by
  induction t with
  | nil => rfl
  | cons c cs ih =>
    unfold lines
    split
    · simp [ih]
    · cases hl : lines cs with
      | nil =>
        rw [hl] at ih
        simp [← ih]
      | cons l ls =>
        rw [hl] at ih
        simp [← ih]

/-- A list of lines in which only the last may lack its newline. -/
def Regular : List (List Char) → Prop
  | [] => True
  | [l] => (∃ b, '\n' ∉ b ∧ l = b ++ ['\n']) ∨ '\n' ∉ l ∧ l ≠ []
  | l :: ls => (∃ b, '\n' ∉ b ∧ l = b ++ ['\n']) ∧ Regular ls

theorem Regular.of_terminated {b : List Char} {ls : List (List Char)} (hb : '\n' ∉ b) (h : Regular ls) :
    Regular ((b ++ ['\n']) :: ls) := by
  cases ls with
  | nil => exact .inl ⟨b, hb, rfl⟩
  | cons l ls => exact ⟨⟨b, hb, rfl⟩, h⟩

theorem Regular.tail {l : List Char} {ls : List (List Char)} (h : Regular (l :: ls)) : Regular ls := by
  cases ls with
  | nil => trivial
  | cons l' ls => exact h.2

theorem regular_lines (t : List Char) : Regular (lines t) := by
  induction t with
  | nil => trivial
  | cons c cs ih =>
    unfold lines
    split
    · rename_i hc
      subst hc
      exact Regular.of_terminated (b := []) (by simp) ih
    · rename_i hc
      cases hl : lines cs with
      | nil => exact .inr ⟨by simpa using fun h => hc h.symm, by simp⟩
      | cons l ls =>
        rw [hl] at ih
        -- the character goes in front of the first line, which keeps or lacks its newline as before
        cases ls with
        | nil =>
          rcases ih with ⟨b, hb, rfl⟩ | ⟨hn, hne⟩
          · exact .inl ⟨c :: b, by simp [hb, Ne.symm hc], rfl⟩
          · exact .inr ⟨by simp [hn, Ne.symm hc], by simp⟩
        | cons l' ls =>
          obtain ⟨⟨b, hb, rfl⟩, hrest⟩ := ih
          exact ⟨⟨c :: b, by simp [hb, Ne.symm hc], rfl⟩, hrest⟩

theorem lines_of_unterminated {b : List Char} (hb : '\n' ∉ b) (hne : b ≠ []) : lines b = [b] := by
  induction b with
  | nil => exact absurd rfl hne
  | cons c cs ih =>
    simp only [List.mem_cons, not_or] at hb
    obtain ⟨hc, hcs⟩ := hb
    rw [lines, if_neg (Ne.symm hc)]
    by_cases h : cs = []
    · simp [h, lines]
    · simp [ih hcs h]

theorem lines_terminated_append {b : List Char} (hb : '\n' ∉ b) (t : List Char) :
    lines (b ++ ['\n'] ++ t) = (b ++ ['\n']) :: lines t := by
  induction b with
  | nil => simp [lines]
  | cons c cs ih =>
    simp only [List.mem_cons, not_or] at hb
    obtain ⟨hc, hcs⟩ := hb
    have ih := ih hcs
    simp only [List.cons_append, lines, if_neg (Ne.symm hc)]
    rw [ih]

theorem Regular.lines_flatten {ls : List (List Char)} (h : Regular ls) : lines ls.flatten = ls := by
  induction ls with
  | nil => rfl
  | cons l ls ih =>
    have ih := ih h.tail
    cases ls with
    | nil =>
      rcases h with ⟨b, hb, rfl⟩ | ⟨hn, hne⟩
      · simpa [lines] using lines_terminated_append hb []
      · simpa using lines_of_unterminated hn hne
    | cons l' ls =>
      obtain ⟨⟨b, hb, rfl⟩, -⟩ := h
      rw [List.flatten_cons, lines_terminated_append hb, ih]

theorem Regular.of_sublist {ls ls' : List (List Char)} (hs : ls'.Sublist ls) (h : Regular ls) : Regular ls' := by
  induction hs with
  | slnil => trivial
  | cons l _ ih => exact ih h.tail
  | cons_cons l hsub ih =>
    rename_i ms' ms
    cases ms with
    | nil =>
      cases hsub
      exact h
    | cons m ms =>
      obtain ⟨⟨b, hb, rfl⟩, hrest⟩ := h
      exact .of_terminated hb (ih hrest)

/-- Lines picked out of a text are the lines of what they make up. -/
theorem lines_flatten_of_sublist {t : List Char} {ls : List (List Char)} (h : ls.Sublist (lines t)) :
    lines ls.flatten = ls :=
  ((regular_lines t).of_sublist h).lines_flatten

theorem lines_deleteLines (p : List Char → Bool) (t : List Char) :
    lines (deleteLines p t) = (lines t).filter fun line => !p (body line) :=
  lines_flatten_of_sublist List.filter_sublist

end TextLines
