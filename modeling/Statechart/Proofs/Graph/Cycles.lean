import Mathlib.Data.List.Chain
import Mathlib.Data.List.Perm.Subperm
import Mathlib.Logic.Relation
import Statechart.Graph.Pattern
import Statechart.Proofs.Graph.Closure
set_option autoImplicit false

/-!
# Graphs: cycles and walks

The nodes of a cycle lead to each other, so none of them is ever removed when nodes that lead to no
remaining node are (`mem_peel_of_closed`).  A chart whose graph is said to have no cycle therefore
has none (`not_transGen_step`), and a walk along its transitions meets no state twice and is shorter
than the list of the states.
-/

namespace Statechart

namespace Graph

theorem mem_leadingInside {next : Nat → List Nat} {nodes : List Nat} {x : Nat} :
    x ∈ leadingInside next nodes ↔ x ∈ nodes ∧ ∃ y ∈ next x, y ∈ nodes := by
  simp [leadingInside]

/-- Nodes that each lead to another of them are never removed. -/
theorem mem_peel_of_closed {next : Nat → List Nat} {K : Nat → Prop}
    (hnext : ∀ x, K x → ∃ y ∈ next x, K y) {nodes : List Nat} (hnodes : ∀ x, K x → x ∈ nodes)
    {x : Nat} (hx : K x) : x ∈ peel next nodes := by
  rw [peel]
  split
  · refine mem_peel_of_closed hnext ?_ hx
    intro y hy
    obtain ⟨z, hz, hKz⟩ := hnext y hy
    exact mem_leadingInside.2 ⟨hnodes y hy, z, hz, hnodes z hKz⟩
  · exact hnodes x hx
termination_by nodes.length

end Graph

namespace Chart

/-- A transition of the first state leads to the second. -/
def Step (c : Chart) (source target : String) : Prop :=
  ∃ s ∈ c.states, s.id = source ∧ ∃ t ∈ s.transitions, t.target = target

theorem Step.source_mem {c : Chart} {source target : String} (h : c.Step source target) :
    source ∈ c.stateIds := by
  obtain ⟨s, hs, rfl, _⟩ := h
  exact List.mem_map_of_mem hs

theorem Step.target_mem {c : Chart} (hc : c.WellFormed) {source target : String}
    (h : c.Step source target) : target ∈ c.stateIds := by
  obtain ⟨s, hs, _, t, ht, rfl⟩ := h
  exact hc.target_mem t (mem_transitions.2 ⟨s, hs, ht⟩)

/-- Steps are edges of the graph. -/
theorem Step.mem_successors {c : Chart} (hc : c.WellFormed) {source target : String}
    (h : c.Step source target) {node next : Nat} (hnode : c.position? source = some node)
    (hnext : c.position? target = some next) : next ∈ (Graph.ofChart c).successors node := by
  obtain ⟨s, hs, rfl, t, ht, rfl⟩ := h
  exact Graph.mem_successors_ofChart.2 ⟨s, hc.getElem?_position? hs hnode, t, ht, hnext⟩

/-- **A chart without cycles.**  No steps lead from a state back to it. -/
theorem not_transGen_step {c : Chart} (hc : c.WellFormed)
    (hcycles : (Graph.ofChart c).hasCycles = false) (id : String) :
    ¬ Relation.TransGen c.Step id id := by
  intro hcycle
  -- the nodes of all states on cycles
  let K : Nat → Prop := fun node =>
    ∃ id, c.position? id = some node ∧ Relation.TransGen c.Step id id
  have hnext : ∀ node, K node → ∃ next ∈ (Graph.ofChart c).successors node, K next := by
    rintro node ⟨id, hnode, hcycle⟩
    obtain ⟨middle, hstep, hback⟩ := Relation.TransGen.head'_iff.1 hcycle
    obtain ⟨next, hposition⟩ := exists_position? (hstep.target_mem hc)
    exact ⟨next, hstep.mem_successors hc hnode hposition, middle, hposition, .tail' hback hstep⟩
  have hnodes : ∀ node, K node → node ∈ (Graph.ofChart c).nodes := by
    rintro node ⟨id, hnode, _⟩
    exact Graph.mem_nodes_ofChart.2 (position?_lt hnode)
  obtain ⟨_, hstep, _⟩ := Relation.TransGen.head'_iff.1 hcycle
  obtain ⟨node, hnode⟩ := exists_position? hstep.source_mem
  have hmem := Graph.mem_peel_of_closed hnext hnodes ⟨id, hnode, hcycle⟩
  have hempty : Graph.peel (Graph.ofChart c).successors (Graph.ofChart c).nodes = [] := by
    simpa [Graph.hasCycles] using hcycles
  rw [hempty] at hmem
  exact absurd hmem List.not_mem_nil

/-- The states on the way from the first state to the last one, the first left out. -/
inductive Walk (c : Chart) : String → List String → String → Prop where
  | stay (id : String) : Walk c id [] id
  | go {source middle target : String} {rest : List String} (h : c.Step source middle)
    (hrest : Walk c middle rest target) : Walk c source (middle :: rest) target

namespace Walk

variable {c : Chart} {source middle target : String} {states more : List String}

theorem single (h : c.Step source target) : c.Walk source [target] target :=
  .go h (.stay target)

theorem trans (h : c.Walk source states middle) (h' : c.Walk middle more target) :
    c.Walk source (states ++ more) target := by
  induction h with
  | stay id => exact h'
  | go hstep _ ih => exact .go hstep (ih h')

theorem isChain (h : c.Walk source states target) : List.IsChain c.Step (source :: states) := by
  induction h with
  | stay id => exact .singleton id
  | go hstep _ ih => exact .cons_cons hstep ih

theorem subset (hc : c.WellFormed) (h : c.Walk source states target) : states ⊆ c.stateIds := by
  induction h with
  | stay id => exact List.nil_subset _
  | go hstep _ ih => exact List.cons_subset.2 ⟨hstep.target_mem hc, ih⟩

/-- No walk of a chart without cycles meets a state twice. -/
theorem nodup (hc : c.WellFormed) (hcycles : (Graph.ofChart c).hasCycles = false)
    (h : c.Walk source states target) : (source :: states).Nodup := by
  have hchain : List.IsChain (Relation.TransGen c.Step) (source :: states) :=
    h.isChain.imp fun _ _ => .single
  refine hchain.pairwise.imp ?_
  rintro a b hab rfl
  exact not_transGen_step hc hcycles a hab

/-- So every walk from one of the states has fewer steps than the chart has states. -/
theorem length_lt (hc : c.WellFormed) (hcycles : (Graph.ofChart c).hasCycles = false)
    (hsource : source ∈ c.stateIds) (h : c.Walk source states target) :
    states.length < (Graph.ofChart c).stats.states := by
  have hsubset : source :: states ⊆ c.stateIds :=
    List.cons_subset.2 ⟨hsource, h.subset hc⟩
  have hle := (List.subperm_of_subset (h.nodup hc hcycles) hsubset).length_le
  rwa [List.length_cons] at hle

end Walk

end Chart

end Statechart
