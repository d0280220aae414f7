set_option autoImplicit false

/-!
# Text: lines

The lines of a text.  What stands before the end of a line and what stands after it are divided
independently of each other, so that the lines of one part of a text can be read without the rest.
-/

namespace Statechart.Text

/-- The lines of a text, without their ends. -/
def lines : List Char → List (List Char)
  | [] => []
  | c :: cs =>
    if c = '\n' then [] :: lines cs
    else
      match lines cs with
      | [] => [[c]]
      | line :: rest => (c :: line) :: rest

@[simp] theorem lines_nil : lines [] = [] := rfl

@[simp] theorem lines_newline (rest : List Char) : lines ('\n' :: rest) = [] :: lines rest := by
  simp [lines]

theorem lines_cons {c : Char} (hc : c ≠ '\n') {cs line : List Char} {rest : List (List Char)}
    (h : lines cs = line :: rest) : lines (c :: cs) = (c :: line) :: rest := by
  simp [lines, hc, h]

/-- A text that is not empty has a first line. -/
theorem lines_ne_nil {cs : List Char} (h : cs ≠ []) : lines cs ≠ [] := by
  cases cs with
  | nil => exact absurd rfl h
  | cons c cs =>
    unfold lines
    split
    · exact List.cons_ne_nil _ _
    · split <;> exact List.cons_ne_nil _ _

/-- The first line runs up to the first line end. -/
theorem lines_append_of_not_mem {line : List Char} (h : '\n' ∉ line) (rest : List Char) :
    lines (line ++ '\n' :: rest) = line :: lines rest := by
  induction line with
  | nil => exact lines_newline rest
  | cons c line ih =>
    have hc : c ≠ '\n' := fun heq => h (heq ▸ List.mem_cons_self)
    have hline : '\n' ∉ line := fun hmem => h (List.mem_cons_of_mem _ hmem)
    exact lines_cons hc (ih hline)

/-- After a line end the lines are those of what follows, whatever stands before. -/
theorem lines_append_newline (before rest : List Char) :
    lines (before ++ '\n' :: rest) = lines (before ++ ['\n']) ++ lines rest := by
  induction before with
  | nil => simp
  | cons c before ih =>
    by_cases hc : c = '\n'
    · subst hc
      simp only [List.cons_append, lines_newline, ih]
    · have hne : lines (before ++ ['\n']) ≠ [] := lines_ne_nil (by simp)
      obtain ⟨line, more, hmore⟩ := List.exists_cons_of_ne_nil hne
      have hrest : lines (before ++ '\n' :: rest) = line :: (more ++ lines rest) := by
        rw [ih, hmore]
        rfl
      rw [List.cons_append, List.cons_append, lines_cons hc hrest, lines_cons hc hmore]
      rfl

/-- No line holds a line end. -/
theorem not_mem_of_mem_lines {cs line : List Char} (h : line ∈ lines cs) : '\n' ∉ line := by
  induction cs generalizing line with
  | nil => exact absurd h List.not_mem_nil
  | cons c cs ih =>
    by_cases hc : c = '\n'
    · subst hc
      rw [lines_newline] at h
      rcases List.mem_cons.1 h with rfl | hrest
      · exact List.not_mem_nil
      · exact ih hrest
    · have hne : '\n' ≠ c := fun heq => hc heq.symm
      cases hlines : lines cs with
      | nil =>
        rw [lines, if_neg hc, hlines, List.mem_singleton] at h
        simp [h, hne]
      | cons first rest =>
        rw [lines_cons hc hlines] at h
        rcases List.mem_cons.1 h with rfl | hrest
        · have hfirst : '\n' ∉ first := ih (by rw [hlines]; exact List.mem_cons_self)
          simp [hne, hfirst]
        · exact ih (by rw [hlines]; exact List.mem_cons_of_mem _ hrest)

/-- A text that ends with a line end consists of its lines. -/
theorem flatMap_lines (before : List Char) :
    (lines (before ++ ['\n'])).flatMap (· ++ ['\n']) = before ++ ['\n'] := by
  induction before with
  | nil => rfl
  | cons c before ih =>
    by_cases hc : c = '\n'
    · subst hc
      rw [List.cons_append, lines_newline, List.flatMap_cons, ih]
      rfl
    · have hne : lines (before ++ ['\n']) ≠ [] := lines_ne_nil (by simp)
      obtain ⟨line, rest, hlines⟩ := List.exists_cons_of_ne_nil hne
      rw [hlines, List.flatMap_cons] at ih
      rw [List.cons_append, lines_cons hc hlines, List.flatMap_cons, List.cons_append,
        List.cons_append, ih]

end Statechart.Text
