import Mathlib.Order.WellFoundedSet
import Statechart.Proofs.Graph.Cycles
import Statechart.Proofs.Graph.Representation
set_option autoImplicit false

/-!
# Graphs: patterns

What remains when no node can be removed any more leads on within itself (`exists_next_mem_peel`),
and finitely many states that lead on within themselves lead back to one of them
(`exists_transGen_self`).  With the converse, that cycles are never removed, a chart is said to have
cycles exactly if transitions lead from some state back to it, wherever that state is.  The other
two patterns differ in the number of transitions that leave a state (`pattern_classifies`).
-/

namespace Statechart

/-- Transitions, at least one, lead from some state back to it. -/
def Chart.Cyclic (c : Chart) : Prop :=
  ∃ id, Relation.TransGen c.Step id id

/-- Finitely many things that are each related to another of them are related in a circle. -/
theorem exists_transGen_self {α : Type} {r : α → α → Prop} {K : Set α} (hfinite : K.Finite)
    (hnonempty : K.Nonempty) (hnext : ∀ x ∈ K, ∃ y ∈ K, r x y) :
    ∃ x, Relation.TransGen r x x := by
  by_contra hnone
  -- without a circle, being led to is a strict order, and the finite `K` is well-founded in it
  have hstrict : IsStrictOrder α (fun x y => Relation.TransGen r y x) :=
    { irrefl := fun x hx => hnone ⟨x, hx⟩
      trans := fun _ _ _ hxy hyz => hyz.trans hxy }
  have hfounded : K.WellFoundedOn (fun x y => Relation.TransGen r y x) := hfinite.wellFoundedOn
  obtain ⟨x, hx⟩ := hnonempty
  refine hfounded.induction (P := fun _ => False) hx ?_
  intro y hy hsmaller
  obtain ⟨z, hz, hyz⟩ := hnext y hy
  exact hsmaller z hz (.single hyz)

namespace Graph

/-! ## Cycles -/

/-- Every node that remains leads to one that remains. -/
theorem exists_next_mem_peel {next : Nat → List Nat} {nodes : List Nat} {x : Nat}
    (hx : x ∈ peel next nodes) : ∃ y ∈ next x, y ∈ peel next nodes := by
  rw [peel] at hx ⊢
  by_cases hfewer : (leadingInside next nodes).length < nodes.length
  · rw [if_pos hfewer] at hx ⊢
    exact exists_next_mem_peel hx
  · rw [if_neg hfewer] at hx ⊢
    have hall : (leadingInside next nodes).length = nodes.length :=
      Nat.le_antisymm (List.length_filter_le _ _) (Nat.not_lt.1 hfewer)
    have hinside : x ∈ leadingInside next nodes :=
      List.mem_filter.2 ⟨hx, List.length_filter_eq_length_iff.1 hall x hx⟩
    exact (mem_leadingInside.1 hinside).2
termination_by nodes.length

variable {c : Chart}

/-- The states whose nodes remain when no more can be removed. -/
def remainingStates (c : Chart) : Set String :=
  {id | ∃ node, c.position? id = some node ∧
    node ∈ peel (ofChart c).successors (ofChart c).nodes}

theorem finite_remainingStates (c : Chart) : (remainingStates c).Finite := by
  refine (List.finite_toSet c.stateIds).subset ?_
  rintro id ⟨node, hnode, _⟩
  exact List.mem_of_getElem? (List.getElem?_map.trans (Chart.getElem?_of_position? hnode))

/-- The state of a node that remains has a transition to a state that remains. -/
theorem exists_transition_of_mem_peel {node : Nat}
    (hnode : node ∈ peel (ofChart c).successors (ofChart c).nodes) :
    ∃ s, c.states[node]? = some s ∧ ∃ t ∈ s.transitions, t.target ∈ remainingStates c := by
  obtain ⟨next, hnext, hremains⟩ := exists_next_mem_peel hnode
  obtain ⟨s, hs, t, ht, htarget⟩ := mem_successors_ofChart.1 hnext
  exact ⟨s, hs, t, ht, next, htarget, hremains⟩

theorem exists_step_remainingStates {id : String} (hid : id ∈ remainingStates c) :
    ∃ next ∈ remainingStates c, c.Step id next := by
  obtain ⟨node, hnode, hremains⟩ := hid
  obtain ⟨s, hs, t, ht, htarget⟩ := exists_transition_of_mem_peel hremains
  have hname := Chart.getElem?_of_position? hnode
  rw [hs] at hname
  exact ⟨t.target, htarget, s, List.mem_of_getElem? hs, Option.some.inj hname, t, ht, rfl⟩

/-- **A chart is said to have cycles exactly if it has.** -/
theorem hasCycles_ofChart (hc : c.WellFormed) :
    (ofChart c).hasCycles = true ↔ c.Cyclic := by
  constructor
  · intro hcycles
    have hremains : peel (ofChart c).successors (ofChart c).nodes ≠ [] := by
      simpa [hasCycles] using hcycles
    obtain ⟨node, hnode⟩ := List.exists_mem_of_ne_nil _ hremains
    obtain ⟨_, _, t, _, htarget⟩ := exists_transition_of_mem_peel hnode
    exact exists_transGen_self (finite_remainingStates c) ⟨t.target, htarget⟩
      fun _ => exists_step_remainingStates
  · rintro ⟨id, hcycle⟩
    refine Classical.byContradiction fun hnot => ?_
    exact Chart.not_transGen_step hc (Bool.eq_false_iff.2 hnot) id hcycle

/-! ## Patterns -/

/-- Every node has at most one successor exactly if every state has at most one transition. -/
theorem all_length_successors_ofChart (hc : c.WellFormed) :
    ((ofChart c).nodes.all fun node => ((ofChart c).successors node).length ≤ 1) = true ↔
      ∀ s ∈ c.states, s.transitions.length ≤ 1 := by
  simp only [List.all_eq_true, decide_eq_true_eq, mem_nodes_ofChart]
  constructor
  · intro hnodes s hs
    obtain ⟨node, hnode⟩ := List.getElem?_of_mem hs
    obtain ⟨hlt, _⟩ := List.getElem?_eq_some_iff.1 hnode
    rw [← length_successors_ofChart hc hnode]
    exact hnodes node hlt
  · intro hstates node hlt
    rw [length_successors_ofChart hc (List.getElem?_eq_getElem hlt)]
    exact hstates _ (List.getElem_mem hlt)

/-- **The pattern of a chart.**  It has cycles, and is cyclic, exactly if transitions lead from some
state back to it.  Otherwise it is linear if every state has at most one transition, and branching
if some state has two or more. -/
theorem pattern_classifies (hd : c.IsDocument) :
    ((ofChart c).hasCycles = true ↔ c.Cyclic) ∧
    ((ofChart c).pattern = .cyclic ↔ c.Cyclic) ∧
    ((ofChart c).pattern = .linear ↔
      ¬ c.Cyclic ∧ ∀ s ∈ c.states, s.transitions.length ≤ 1) ∧
    ((ofChart c).pattern = .branching ↔
      ¬ c.Cyclic ∧ ∃ s ∈ c.states, 2 ≤ s.transitions.length) := by
  have hc := hd.wellFormed
  have hcycles := hasCycles_ofChart hc
  have hsingle := all_length_successors_ofChart hc
  have hsome : (∃ s ∈ c.states, 2 ≤ s.transitions.length) ↔
      ¬ ∀ s ∈ c.states, s.transitions.length ≤ 1 := by
    simp only [not_forall, exists_prop, Nat.not_le, Nat.succ_le_iff]
  refine ⟨hcycles, ?_⟩
  rw [hsome, ← hcycles, ← hsingle]
  unfold pattern
  cases (ofChart c).hasCycles with
  | true => simp
  | false =>
    cases (ofChart c).nodes.all fun node => ((ofChart c).successors node).length ≤ 1 <;> simp

/-- The door is cyclic: a kick leads from the closed door to the closed door. -/
theorem pattern_classifies_door :
    Chart.door.IsDocument ∧ (ofChart Chart.door).hasCycles = true ∧
    (ofChart Chart.door).pattern = .cyclic := by
  have hkick : Chart.door.Step "Closed" "Closed" :=
    ⟨_, List.mem_cons_self, rfl, ⟨"Kick", "Closed", ["Rattle"]⟩, by decide, rfl⟩
  have hcyclic : Chart.door.Cyclic := ⟨"Closed", .single hkick⟩
  obtain ⟨hcycles, hpattern, _⟩ := pattern_classifies Chart.isDocument_door
  exact ⟨Chart.isDocument_door, hcycles.2 hcyclic, hpattern.2 hcyclic⟩

end Graph

end Statechart
