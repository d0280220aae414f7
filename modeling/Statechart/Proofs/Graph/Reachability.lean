import Mathlib.Logic.Relation
import Statechart.Proofs.Graph.Closure
import Statechart.Proofs.Graph.Representation
set_option autoImplicit false

/-!
# Graphs: reachable and unreachable states

A move leads from a state along a transition that is open to it.  The states that are listed as
reachable are those that moves lead to from the initial state (`mem_reachableStates_iff`): the
layers hold what moves lead to, and no move leads out of them.  The states that are listed as
unreachable are the others, but for a base state that no transition leads to
(`reachability_splits_states`).
-/

namespace Statechart

/-- A transition that is open to the first state leads to the second. -/
def Chart.Move (c : Chart) (source target : String) : Prop :=
  ∃ s ∈ c.states, s.id = source ∧ ∃ t, c.OpenTo s t ∧ t.target = target

/-- A base state that is there for its transitions alone: none leads to it. -/
def Chart.IsSpareBase (c : Chart) (id : String) : Prop :=
  c.isBase id = true ∧ id ∉ c.targets

namespace Graph

variable {c : Chart} {id : String} {node : Nat}

/-! ## Nodes and listed labels -/

/-- Labels are listed in the order of their nodes. -/
theorem labelsWhere_sublist (g : Graph) (p : Nat → Bool) : (g.labelsWhere p).Sublist g.labels := by
  have hsublist : (g.labelsWhere p).Sublist (g.labels.zipIdx.map Prod.fst) :=
    List.filter_sublist.map Prod.fst
  rwa [List.zipIdx_map_fst] at hsublist

/-- A reachable node is the initial one or the target of an edge. -/
theorem eq_initial_or_isTarget {g : Graph} :
    ∀ node ∈ g.reachableNodes, node = g.initial ∨ g.isTarget node = true := by
  have hedge : ∀ source node, node ∈ g.successors source → g.isTarget node = true := by
    intro source node hnode
    obtain ⟨edge, hmem, rfl⟩ := List.mem_map.1 hnode
    exact List.any_eq_true.2 ⟨edge, (List.mem_filter.1 hmem).1, decide_eq_true rfl⟩
  refine forall_mem_layers ?_ (.inl rfl)
  intro source _ node hnode
  rcases mem_moves.1 hnode with hown | ⟨base, _, hlent⟩
  · exact .inr (hedge source node hown)
  · exact .inr (hedge base node hlent)

/-- A node is the target of an edge exactly if its state is a target. -/
theorem isTarget_ofChart (hc : c.WellFormed) (hnode : c.position? id = some node) :
    (ofChart c).isTarget node = true ↔ id ∈ c.targets := by
  have hname := Chart.getElem?_of_position? hnode
  have hsame : ∀ target, c.position? target = some node → target = id := fun target htarget =>
    Option.some.inj ((Chart.getElem?_of_position? htarget).symm.trans hname)
  rw [Chart.mem_targets]
  constructor
  · intro htarget
    obtain ⟨edge, hedge, heq⟩ := List.any_eq_true.1 htarget
    have hsuccessor : node ∈ (ofChart c).successors edge.source :=
      List.mem_map.2 ⟨edge, List.mem_filter.2 ⟨hedge, decide_eq_true rfl⟩, of_decide_eq_true heq⟩
    obtain ⟨s, hs, t, ht, hposition⟩ := mem_successors_ofChart.1 hsuccessor
    exact ⟨t, Chart.mem_transitions.2 ⟨s, List.mem_of_getElem? hs, ht⟩, hsame _ hposition⟩
  · rintro ⟨t, ht, rfl⟩
    obtain ⟨s, hs, ht⟩ := Chart.mem_transitions.1 ht
    obtain ⟨source, hsource⟩ := Chart.exists_position? (List.mem_map_of_mem hs)
    have hsuccessor : node ∈ (ofChart c).successors source :=
      mem_successors_ofChart.2 ⟨s, hc.getElem?_position? hs hsource, t, ht, hnode⟩
    obtain ⟨edge, hedge, heq⟩ := List.mem_map.1 hsuccessor
    exact List.any_eq_true.2 ⟨edge, (List.mem_filter.1 hedge).1, decide_eq_true heq⟩

/-- A declared state is listed by a test exactly if its node passes. -/
theorem mem_labelsWhere_ofChart (hc : c.WellFormed) (hnode : c.position? id = some node)
    {p : Nat → Bool} : id ∈ (ofChart c).labelsWhere p ↔ p node = true := by
  have hlabel : (ofChart c).labels[node]? = some id :=
    List.getElem?_map.trans (Chart.getElem?_of_position? hnode)
  rw [mem_labelsWhere]
  constructor
  · rintro ⟨other, hother, hp⟩
    obtain ⟨hlt, _⟩ := List.getElem?_eq_some_iff.1 hlabel
    obtain rfl : node = other := (List.getElem?_inj hlt hc.nodup_ids).1 (hlabel.trans hother.symm)
    exact hp
  · exact fun hp => ⟨node, hlabel, hp⟩

theorem mem_reachableStates_ofChart (hc : c.WellFormed) (hnode : c.position? id = some node) :
    id ∈ (ofChart c).reachableStates ↔ node ∈ (ofChart c).reachableNodes := by
  rw [reachableStates, mem_labelsWhere_ofChart hc hnode, List.contains_iff_mem]

/-- A declared state is listed as unreachable exactly if it is not listed as reachable, a base state
that is no target apart. -/
theorem mem_unreachableStates_ofChart (hc : c.WellFormed) (hnode : c.position? id = some node) :
    id ∈ (ofChart c).unreachableStates ↔
      ¬(c.isBase id = true ∧ id ∉ c.targets) ∧ node ∉ (ofChart c).reachableNodes := by
  rw [← base?_ofChart hnode, ← isTarget_ofChart hc hnode, unreachableStates,
    mem_labelsWhere_ofChart hc hnode]
  simp [Classical.or_iff_not_imp_left]

/-! ## Moves -/

/-- A reachable node is that of a state that moves lead to. -/
theorem exists_moves_of_mem_reachableNodes (hc : c.WellFormed) :
    ∀ node ∈ (ofChart c).reachableNodes,
      ∃ s, c.states[node]? = some s ∧ Relation.ReflTransGen c.Move c.initial s.id := by
  refine forall_mem_layers ?_ ?_
  · rintro source ⟨s, hs, hmoves⟩ target htarget
    obtain ⟨t, ht, hposition⟩ := (mem_moves_ofChart hc hs).1 htarget
    obtain ⟨s', hs', hname⟩ := Chart.exists_state_of_position? hposition
    exact ⟨s', hs', hmoves.tail ⟨s, List.mem_of_getElem? hs, rfl, t, ht, hname.symm⟩⟩
  · obtain ⟨s, hs, hname⟩ := Chart.exists_state_of_position? (position?_initial_ofChart hc)
    exact ⟨s, hs, hname ▸ .refl⟩

/-- Moves lead to reachable nodes. -/
theorem mem_reachableNodes_of_moves (hc : c.WellFormed)
    (hmoves : Relation.ReflTransGen c.Move c.initial id) :
    ∃ node, c.position? id = some node ∧ node ∈ (ofChart c).reachableNodes := by
  induction hmoves with
  | refl =>
    have hinitial := position?_initial_ofChart hc
    exact ⟨_, hinitial, position?_initial_mem_reachableNodes hinitial⟩
  | tail _ hmove ih =>
    obtain ⟨source, hsource, hreachable⟩ := ih
    obtain ⟨s, hs, rfl, t, ht, rfl⟩ := hmove
    obtain ⟨target, htarget⟩ :=
      Chart.exists_position? (hc.target_mem t (Chart.mem_transitions_of_openTo hs ht))
    refine ⟨target, htarget, mem_layers_of_mem_next hreachable ?_
      (mem_nodes_ofChart.2 (Chart.position?_lt htarget))⟩
    exact (mem_moves_ofChart hc (hc.getElem?_position? hs hsource)).2 ⟨t, ht, htarget⟩

/-- **The reachable states are those that moves lead to** from the initial state. -/
theorem mem_reachableStates_iff (hc : c.WellFormed) :
    id ∈ (ofChart c).reachableStates ↔ Relation.ReflTransGen c.Move c.initial id := by
  constructor
  · intro hid
    obtain ⟨node, hlabel, hnode⟩ := mem_labelsWhere.1 hid
    obtain ⟨s, hs, hmoves⟩ :=
      exists_moves_of_mem_reachableNodes hc node (List.contains_iff_mem.1 hnode)
    rw [getElem?_labels_ofChart, hs] at hlabel
    exact Option.some.inj hlabel ▸ hmoves
  · intro hmoves
    obtain ⟨node, hnode, hreachable⟩ := mem_reachableNodes_of_moves hc hmoves
    exact (mem_reachableStates_ofChart hc hnode).2 hreachable

/-! ## The two lists -/

/-- **What is listed as unreachable**: the declared states that no moves lead to, but for a spare
base state. -/
theorem mem_unreachableStates_iff (hc : c.WellFormed) :
    id ∈ (ofChart c).unreachableStates ↔
      id ∈ c.stateIds ∧ ¬ Relation.ReflTransGen c.Move c.initial id ∧ ¬ c.IsSpareBase id := by
  rw [← mem_reachableStates_iff hc]
  constructor
  · intro hid
    have hdeclared : id ∈ c.stateIds := (labelsWhere_sublist _ _).subset hid
    obtain ⟨node, hnode⟩ := Chart.exists_position? hdeclared
    obtain ⟨hspare, hmissed⟩ := (mem_unreachableStates_ofChart hc hnode).1 hid
    exact ⟨hdeclared, mt (mem_reachableStates_ofChart hc hnode).1 hmissed, hspare⟩
  · rintro ⟨hdeclared, hmissed, hspare⟩
    obtain ⟨node, hnode⟩ := Chart.exists_position? hdeclared
    exact (mem_unreachableStates_ofChart hc hnode).2
      ⟨hspare, mt (mem_reachableStates_ofChart hc hnode).2 hmissed⟩

/-- **Reachability splits the states.**  The reachable states are those that moves lead to from the
initial state, the unreachable ones are the remaining states but for a spare base state, and both
are listed in document order and once.  So a state that is no spare base state is in exactly one of
the two lists. -/
theorem reachability_splits_states (hd : c.IsDocument) :
    (∀ id, id ∈ (ofChart c).reachableStates ↔ Relation.ReflTransGen c.Move c.initial id) ∧
    (∀ id, id ∈ (ofChart c).unreachableStates ↔
      id ∈ c.stateIds ∧ id ∉ (ofChart c).reachableStates ∧ ¬ c.IsSpareBase id) ∧
    (ofChart c).reachableStates.Sublist c.stateIds ∧ (ofChart c).reachableStates.Nodup ∧
    (ofChart c).unreachableStates.Sublist c.stateIds ∧ (ofChart c).unreachableStates.Nodup ∧
    ∀ id ∈ c.stateIds,
      (id ∈ (ofChart c).reachableStates ↔ id ∉ (ofChart c).unreachableStates) ∨
        c.IsSpareBase id := by
  have hc := hd.wellFormed
  have hunreachable : ∀ id, id ∈ (ofChart c).unreachableStates ↔
      id ∈ c.stateIds ∧ id ∉ (ofChart c).reachableStates ∧ ¬ c.IsSpareBase id := by
    intro id
    rw [mem_unreachableStates_iff hc, mem_reachableStates_iff hc]
  have hsublist : ∀ p, ((ofChart c).labelsWhere p).Sublist c.stateIds := labelsWhere_sublist _
  refine ⟨fun id => mem_reachableStates_iff hc, hunreachable, hsublist _,
    (hsublist _).nodup hc.nodup_ids, hsublist _, (hsublist _).nodup hc.nodup_ids, ?_⟩
  intro id hid
  by_cases hspare : c.IsSpareBase id
  · exact .inr hspare
  · refine .inl ?_
    rw [hunreachable]
    simp [hid, hspare]

/-- At the door, moves lead to the broken state by a transition of the base state, and the base
state is in neither list. -/
theorem reachability_splits_door :
    Chart.door.IsDocument ∧ "Broken" ∈ (ofChart Chart.door).reachableStates ∧
    "Broken" ∉ (ofChart Chart.door).unreachableStates ∧ Chart.door.IsSpareBase "Anywhere" ∧
    "Anywhere" ∉ (ofChart Chart.door).reachableStates ∧
    "Anywhere" ∉ (ofChart Chart.door).unreachableStates := by
  obtain ⟨hreachable, hunreachable, -⟩ := reachability_splits_states Chart.isDocument_door
  have hopen : Chart.door.Move "Closed" "Opened" :=
    ⟨_, List.mem_cons_self, rfl, ⟨"Open", "Opened", ["Unlock"]⟩, .inl (by decide), rfl⟩
  have hkick : Chart.door.Move "Opened" "Broken" :=
    ⟨_, List.mem_cons_of_mem _ List.mem_cons_self, rfl, ⟨"Kick", "Broken", ["Smash", "Sweep"]⟩,
      .inr ⟨_, rfl, List.mem_cons_self⟩, rfl⟩
  have hbroken := (hreachable "Broken").2 ((Relation.ReflTransGen.single hopen).tail hkick)
  have hspare : Chart.door.IsSpareBase "Anywhere" := ⟨rfl, by decide⟩
  have hnever : "Anywhere" ∉ (ofChart Chart.door).reachableStates := by
    intro hlisted
    -- the last move on the way would lead along a transition to the base state
    rcases ((hreachable _).1 hlisted).cases_tail with heq | ⟨_, _, s, hs, _, t, ht, htarget⟩
    · exact absurd heq (by decide)
    · exact hspare.2 (Chart.mem_targets.2 ⟨t, Chart.mem_transitions_of_openTo hs ht, htarget⟩)
  exact ⟨Chart.isDocument_door, hbroken, fun h => ((hunreachable _).1 h).2.1 hbroken, hspare,
    hnever, fun h => ((hunreachable _).1 h).2.2 hspare⟩

end Graph

end Statechart
