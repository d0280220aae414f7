import Statechart.Graph.Layers
import Statechart.Proofs.Chart.Document
set_option autoImplicit false

/-!
# Graphs: what the layers are closed under

Layers are taken until nothing new is found, so that no step leads out of them
(`mem_layers_of_mem_next`), and they hold nothing but what steps lead to (`forall_mem_layers`).  For
the graph of a chart a step is a transition that is open to a state, be it the state's own or the
base state's (`mem_moves_ofChart`); those that some event resolves to are among them.
-/

namespace Statechart

/-- The transitions that are open to a state: its own, and those of the base state. -/
def Chart.OpenTo (c : Chart) (s : State) (t : Transition) : Prop :=
  t ∈ s.transitions ∨ ∃ base, c.baseState? = some base ∧ t ∈ base.transitions

theorem Chart.mem_transitions_of_openTo {c : Chart} {s : State} {t : Transition}
    (hs : s ∈ c.states) (h : c.OpenTo s t) : t ∈ c.transitions := by
  rcases h with hown | ⟨base, hbase, hlent⟩
  · exact mem_transitions.2 ⟨s, hs, hown⟩
  · exact mem_transitions.2 ⟨base, mem_states_of_baseState? hbase, hlent⟩

/-- An event resolves to a transition that is open to the state. -/
theorem Chart.WellFormed.openTo_of_resolve {c : Chart} (hc : c.WellFormed) {s : State}
    (hs : s ∈ c.states) {event : String} {t : Transition} (ht : c.resolve s.id event = some t) :
    c.OpenTo s t := by
  obtain ⟨s', hs', hfound⟩ := Option.bind_eq_some_iff.1 ht
  rw [hc.state?_eq_some_iff.2 ⟨hs, rfl⟩] at hs'
  obtain rfl := Option.some.inj hs'
  rcases Option.or_eq_some_iff.1 hfound with hown | ⟨_, hfallback⟩
  · exact .inl (List.mem_of_find?_eq_some hown)
  · obtain ⟨base, hbase, hown⟩ := Option.bind_eq_some_iff.1 hfallback
    exact .inr ⟨base, hbase, List.mem_of_find?_eq_some hown⟩

namespace Graph

/-! ## Layers -/

section Layers

variable {next : Nat → List Nat} {x y : Nat}

/-- What a layer leads to is found in a layer, unless it was seen before. -/
theorem mem_layersAfter_of_mem_next {unseen frontier : List Nat} (hy : y ∈ next x)
    (hunseen : y ∈ unseen)
    (hx : x ∈ frontier ∨ x ∈ (layersAfter next unseen frontier).flatten) :
    y ∈ (layersAfter next unseen frontier).flatten := by
  rw [layersAfter] at hx ⊢
  by_cases hempty : (found (frontier.flatMap next) unseen).isEmpty = true
  · rw [dif_pos hempty] at hx ⊢
    rcases hx with hx | hx
    · -- nothing was found, yet `y` is one of the heads
      have hfound : y ∈ found (frontier.flatMap next) unseen :=
        mem_found.2 ⟨hunseen, List.mem_flatMap.2 ⟨x, hx, hy⟩⟩
      rw [List.isEmpty_iff.1 hempty] at hfound
      exact hfound
    · exact absurd hx List.not_mem_nil
  · rw [dif_neg hempty, List.flatten_cons, List.mem_append] at hx ⊢
    by_cases hhead : y ∈ frontier.flatMap next
    · exact .inl (mem_found.2 ⟨hunseen, hhead⟩)
    · refine .inr (mem_layersAfter_of_mem_next hy (mem_missed.2 ⟨hunseen, hhead⟩) ?_)
      rcases hx with hx | hx
      · exact absurd (List.mem_flatMap.2 ⟨x, hx, hy⟩) hhead
      · exact hx
termination_by unseen.length
decreasing_by exact length_missed_lt hempty

theorem mem_layers_start (next : Nat → List Nat) (nodes : List Nat) (start : Nat) :
    start ∈ (layers next nodes start).flatten :=
  List.mem_append_left _ (List.mem_singleton_self start)

/-- **No step leads out of the layers.** -/
theorem mem_layers_of_mem_next {nodes : List Nat} {start : Nat}
    (hx : x ∈ (layers next nodes start).flatten) (hy : y ∈ next x) (hnode : y ∈ nodes) :
    y ∈ (layers next nodes start).flatten := by
  unfold layers at hx ⊢
  rw [List.flatten_cons, List.mem_append] at hx ⊢
  by_cases hstart : y = start
  · exact .inl (List.mem_singleton.2 hstart)
  · have hunseen : y ∈ nodes.filter (· ≠ start) :=
      List.mem_filter.2 ⟨hnode, decide_eq_true hstart⟩
    exact .inr (mem_layersAfter_of_mem_next hy hunseen hx)

section Invariant

variable {P : Nat → Prop} (hnext : ∀ x, P x → ∀ y ∈ next x, P y)

include hnext

/-- What holds of a frontier and is handed on by every step holds of the layers after it. -/
theorem forall_mem_layersAfter {unseen frontier : List Nat} (hfrontier : ∀ x ∈ frontier, P x) :
    ∀ y ∈ (layersAfter next unseen frontier).flatten, P y := by
  intro y hy
  rw [layersAfter] at hy
  by_cases hempty : (found (frontier.flatMap next) unseen).isEmpty = true
  · rw [dif_pos hempty] at hy
    exact absurd hy List.not_mem_nil
  · rw [dif_neg hempty, List.flatten_cons, List.mem_append] at hy
    have hfound : ∀ x ∈ found (frontier.flatMap next) unseen, P x := by
      intro x hx
      obtain ⟨_, hhead⟩ := mem_found.1 hx
      obtain ⟨source, hsource, hstep⟩ := List.mem_flatMap.1 hhead
      exact hnext source (hfrontier source hsource) x hstep
    rcases hy with hy | hy
    · exact hfound y hy
    · exact forall_mem_layersAfter hfound y hy
termination_by unseen.length
decreasing_by exact length_missed_lt hempty

/-- **Nothing else is in the layers.**  What holds of the start and is handed on by every step holds
of all of them. -/
theorem forall_mem_layers {nodes : List Nat} {start : Nat} (hstart : P start) :
    ∀ y ∈ (layers next nodes start).flatten, P y := by
  intro y hy
  have hfrontier : ∀ x ∈ [start], P x := fun x hx => List.mem_singleton.1 hx ▸ hstart
  rcases List.mem_append.1 hy with hy | hy
  · exact hfrontier y hy
  · exact forall_mem_layersAfter hnext hfrontier y hy

end Invariant

end Layers

/-! ## Labels -/

theorem mem_labelsWhere {g : Graph} {p : Nat → Bool} {label : String} :
    label ∈ g.labelsWhere p ↔ ∃ node, g.labels[node]? = some label ∧ p node = true := by
  unfold labelsWhere
  simp only [List.mem_map, List.mem_filter, Prod.exists, List.mem_zipIdx_iff_getElem?]
  constructor
  · rintro ⟨_, node, ⟨hlabel, hp⟩, rfl⟩
    exact ⟨node, hlabel, hp⟩
  · rintro ⟨node, hlabel, hp⟩
    exact ⟨label, node, ⟨hlabel, hp⟩, rfl⟩

/-- The label of a reachable node is listed as reachable. -/
theorem mem_reachableStates {g : Graph} {node : Nat} {label : String}
    (hlabel : g.labels[node]? = some label) (hnode : node ∈ g.reachableNodes) :
    label ∈ g.reachableStates :=
  mem_labelsWhere.2 ⟨node, hlabel, List.contains_iff_mem.2 hnode⟩

/-- The label of a reachable node is not listed as unreachable, if no other node has it. -/
theorem not_mem_unreachableStates {g : Graph} (hnodup : g.labels.Nodup) {node : Nat}
    {label : String} (hlabel : g.labels[node]? = some label) (hnode : node ∈ g.reachableNodes) :
    label ∉ g.unreachableStates := by
  intro hmem
  obtain ⟨other, hother, hmissed⟩ := mem_labelsWhere.1 hmem
  obtain ⟨hlt, _⟩ := List.getElem?_eq_some_iff.1 hlabel
  obtain rfl : node = other := (List.getElem?_inj hlt hnodup).1 (hlabel.trans hother.symm)
  rw [List.contains_iff_mem.2 hnode] at hmissed
  simp at hmissed

/-! ## The graph of a chart -/

section OfChart

variable {c : Chart}

theorem mem_nodes_ofChart {node : Nat} : node ∈ (ofChart c).nodes ↔ node < c.states.length := by
  simp [nodes, size, ofChart, Chart.stateIds]

/-- The successors of a state are the targets of its transitions. -/
theorem mem_successors_ofChart {source target : Nat} :
    target ∈ (ofChart c).successors source ↔
      ∃ s, c.states[source]? = some s ∧
        ∃ t ∈ s.transitions, c.position? t.target = some target := by
  unfold successors ofChart edgesOf
  simp only [List.mem_map, List.mem_filter, List.mem_flatMap, Prod.exists, List.mem_filterMap,
    List.mem_zipIdx_iff_getElem?, Option.map_eq_some_iff, decide_eq_true_eq]
  constructor
  · rintro ⟨_, ⟨⟨s, _, hs, t, ht, _, htarget, rfl⟩, rfl⟩, rfl⟩
    exact ⟨s, hs, t, ht, htarget⟩
  · rintro ⟨s, hs, t, ht, htarget⟩
    exact ⟨_, ⟨⟨s, source, hs, t, ht, target, htarget, rfl⟩, rfl⟩, rfl⟩

theorem mem_moves {g : Graph} {source target : Nat} :
    target ∈ g.moves source ↔
      target ∈ g.successors source ∨ ∃ base, g.base? = some base ∧ target ∈ g.successors base := by
  unfold moves
  cases g.base? <;> simp

/-- The moves from a state are the targets of the transitions that are open to it. -/
theorem mem_moves_ofChart (hc : c.WellFormed) {source target : Nat} {s : State}
    (hs : c.states[source]? = some s) :
    target ∈ (ofChart c).moves source ↔
      ∃ t, c.OpenTo s t ∧ c.position? t.target = some target := by
  rw [mem_moves, mem_successors_ofChart]
  constructor
  · rintro (⟨s', hs', t, ht, htarget⟩ | ⟨i, hi, htarget⟩)
    · obtain rfl := Option.some.inj (hs.symm.trans hs')
      exact ⟨t, .inl ht, htarget⟩
    · obtain ⟨base, hbase, hposition⟩ := Option.bind_eq_some_iff.1 hi
      obtain ⟨s', hs', t, ht, htarget⟩ := mem_successors_ofChart.1 htarget
      rw [hc.getElem?_position? (Chart.mem_states_of_baseState? hbase) hposition] at hs'
      obtain rfl := Option.some.inj hs'
      exact ⟨t, .inr ⟨base, hbase, ht⟩, htarget⟩
  · rintro ⟨t, ht | ⟨base, hbase, ht⟩, htarget⟩
    · exact .inl ⟨s, hs, t, ht, htarget⟩
    · have hmem := Chart.mem_states_of_baseState? hbase
      obtain ⟨i, hi⟩ := Chart.exists_position? (List.mem_map_of_mem hmem)
      refine .inr ⟨i, Option.bind_eq_some_iff.2 ⟨base, hbase, hi⟩, ?_⟩
      exact mem_successors_ofChart.2 ⟨base, hc.getElem?_position? hmem hi, t, ht, htarget⟩

/-- **Where an event leads.**  A transition that an event resolves to in a state leads along an edge
of that state or of the base state. -/
theorem mem_moves_of_resolve (hc : c.WellFormed) {source target : Nat} {id event : String}
    {t : Transition} (hsource : (c.states[source]?).map (·.id) = some id)
    (ht : c.resolve id event = some t) (htarget : c.position? t.target = some target) :
    target ∈ (ofChart c).moves source := by
  obtain ⟨s, hs, rfl⟩ := Option.map_eq_some_iff.1 hsource
  exact (mem_moves_ofChart hc hs).2
    ⟨t, hc.openTo_of_resolve (List.mem_of_getElem? hs) ht, htarget⟩

/-- The node of the initial state is reachable. -/
theorem position?_initial_mem_reachableNodes {node : Nat} (h : c.position? c.initial = some node) :
    node ∈ (ofChart c).reachableNodes := by
  have hinitial : (ofChart c).initial = node := by
    simp [ofChart, h]
  exact hinitial ▸ mem_layers_start _ _ _

/-- **The reachable nodes are closed under events.** -/
theorem mem_reachableNodes_of_resolve (hc : c.WellFormed) {source target : Nat} {id event : String}
    {t : Transition} (hreachable : source ∈ (ofChart c).reachableNodes)
    (hsource : (c.states[source]?).map (·.id) = some id)
    (ht : c.resolve id event = some t) (htarget : c.position? t.target = some target) :
    target ∈ (ofChart c).reachableNodes :=
  mem_layers_of_mem_next hreachable (mem_moves_of_resolve hc hsource ht htarget)
    (mem_nodes_ofChart.2 (Chart.position?_lt htarget))

end OfChart

end Graph

end Statechart
