set_option autoImplicit false

/-!
# Text: ordered sets of names

Names are listed once each and in code point order wherever a set of them is shown.  A set is kept
as its ordered list; `mem_orderedSet` says that it holds exactly the given names and
`pairwise_orderedSet` that the list is strictly increasing.
-/

namespace Statechart.Text

/-- Adds a name to an ordered list, unless it is there already. -/
def insertOrdered (name : String) : List String → List String
  | [] => [name]
  | n :: ns =>
    if name < n then name :: n :: ns
    else if name = n then n :: ns
    else n :: insertOrdered name ns

/-- The distinct names of a list, in code point order. -/
def orderedSet (names : List String) : List String :=
  names.foldr insertOrdered []

theorem mem_insertOrdered {name x : String} {ns : List String} :
    x ∈ insertOrdered name ns ↔ x = name ∨ x ∈ ns := by
  induction ns with
  | nil => simp [insertOrdered]
  | cons n ns ih =>
    simp only [insertOrdered]
    split
    · simp
    · split
      · rename_i h
        simp [h]
      · simp only [List.mem_cons, ih]
        exact or_left_comm

@[simp] theorem mem_orderedSet {x : String} {names : List String} :
    x ∈ orderedSet names ↔ x ∈ names := by
  induction names with
  | nil => simp [orderedSet]
  | cons n ns ih =>
    simp only [orderedSet, List.foldr_cons, List.mem_cons] at ih ⊢
    rw [mem_insertOrdered, ih]

theorem pairwise_insertOrdered {name : String} {ns : List String}
    (h : ns.Pairwise (· < ·)) : (insertOrdered name ns).Pairwise (· < ·) := by
  induction ns with
  | nil => simp [insertOrdered]
  | cons n ns ih =>
    obtain ⟨hn, hns⟩ := List.pairwise_cons.1 h
    simp only [insertOrdered]
    split
    · rename_i hlt
      refine List.pairwise_cons.2 ⟨fun x hx => ?_, h⟩
      rcases List.mem_cons.1 hx with rfl | hx
      · exact hlt
      · exact String.lt_trans hlt (hn x hx)
    · split
      · exact h
      · rename_i hge hne
        refine List.pairwise_cons.2 ⟨fun x hx => ?_, ih hns⟩
        rcases mem_insertOrdered.1 hx with rfl | hx
        · rcases String.le_total n x with hle | hle
          · exact String.not_le.1 fun hxn => hne (String.le_antisymm hxn hle)
          · exact absurd (String.not_le.1 fun hnx => hne (String.le_antisymm hle hnx)) hge
        · exact hn x hx

theorem pairwise_orderedSet (names : List String) : (orderedSet names).Pairwise (· < ·) := by
  induction names with
  | nil => simp [orderedSet]
  | cons n ns ih => exact pairwise_insertOrdered ih

end Statechart.Text
