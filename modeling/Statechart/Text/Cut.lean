set_option autoImplicit false

/-!
# Text: cutting at a mark

`cutAt mark cs` finds the first place where `mark` occurs in `cs` and gives what stands before and
after it.  The statements say that nothing is lost by a cut, so that a reader built from cuts
accounts for every character it passes.
-/

namespace Statechart.Text

/-- Splits a text at the first occurrence of `mark`: what stands before it, and what follows it. -/
def cutAt (mark : List Char) : List Char → Option (List Char × List Char)
  | [] => none
  | c :: cs =>
    if mark.isPrefixOf (c :: cs) then
      some ([], (c :: cs).drop mark.length)
    else
      (cutAt mark cs).map fun (before, after) => (c :: before, after)

/-- A cut loses nothing but the mark itself. -/
theorem cutAt_eq_some {mark cs before after : List Char}
    (h : cutAt mark cs = some (before, after)) : before ++ mark ++ after = cs := by
  induction cs generalizing before with
  | nil => simp [cutAt] at h
  | cons c cs ih =>
    simp only [cutAt] at h
    split at h
    · rename_i hp
      obtain ⟨rest, hrest⟩ := List.isPrefixOf_iff_prefix.1 hp
      simp only [Option.some.injEq, Prod.mk.injEq] at h
      obtain ⟨rfl, rfl⟩ := h
      simp [← hrest]
    · obtain ⟨⟨b, a⟩, hb, he⟩ := Option.map_eq_some_iff.1 h
      simp only [Prod.mk.injEq] at he
      obtain ⟨rfl, rfl⟩ := he
      simp [← ih hb]

end Statechart.Text
