import Mathlib.Order.Bounds.Defs
import Statechart.Proofs.Graph.Cycles
import Statechart.Proofs.Graph.Representation
set_option autoImplicit false

/-!
# Graphs: layers and distances

The distance of a node is the least number of steps that lead to it.  While layers are taken, the
frontier holds the nodes at one distance and what is unseen lies farther off (`Surveyed`), a cycle
leading back to what has been seen.  So there are as many layers as there are distances
(`lt_length_layers_iff`), and the depth of a chart is the greatest number of transitions that the
shortest walk to a state takes (`maxDepth_isGreatest`).
-/

namespace Statechart

namespace Graph

/-! ## Steps and distances -/

/-- So many steps lead from the start to a node. -/
inductive Way (next : Nat → List Nat) (start : Nat) : Nat → Nat → Prop where
  | stay : Way next start 0 start
  | go {n x y : Nat} (h : Way next start n x) (hy : y ∈ next x) : Way next start (n + 1) y

/-- The least number of steps that lead from the start to a node. -/
def Distance (next : Nat → List Nat) (start node d : Nat) : Prop :=
  IsLeast {n | Way next start n node} d

section Layers

variable {next : Nat → List Nat} {start : Nat} {nodes : List Nat} {x y d : Nat}

/-- The last step of a shortest way comes from the distance before. -/
theorem Distance.exists_previous (h : Distance next start y (d + 1)) :
    ∃ x, Distance next start x d ∧ y ∈ next x := by
  obtain ⟨hway, hleast⟩ := h
  cases hway with
  | @go _ x _ hx hy =>
    refine ⟨x, ⟨hx, fun n hn => ?_⟩, hy⟩
    exact Nat.le_of_succ_le_succ (hleast (Way.go hn hy))

/-- No distance is left out. -/
theorem Distance.exists_of_le (h : Distance next start y d) {m : Nat} (hm : m ≤ d) :
    ∃ x, Distance next start x m := by
  induction hm generalizing y with
  | refl => exact ⟨y, h⟩
  | step _ ih =>
    obtain ⟨x, hx, _⟩ := h.exists_previous
    exact ih hx

/-! ## Taking layers -/

/-- What is known when layers have been taken up to some distance: the frontier is what lies at that
distance, and what is unseen lies farther off. -/
structure Surveyed (next : Nat → List Nat) (nodes : List Nat) (start d : Nat)
    (unseen frontier : List Nat) : Prop where
  mem_frontier : ∀ x, x ∈ frontier ↔ Distance next start x d
  mem_unseen : ∀ x, x ∈ unseen ↔ x ∈ nodes ∧ ∀ n, Way next start n x → d < n

theorem surveyed_start (next : Nat → List Nat) (nodes : List Nat) (start : Nat) :
    Surveyed next nodes start 0 (nodes.filter (· ≠ start)) [start] := by
  have hstay : ∀ x, Way next start 0 x → x = start := by
    intro x hx
    cases hx
    rfl
  refine ⟨fun x => ?_, fun x => ?_⟩
  · rw [List.mem_singleton]
    refine ⟨?_, fun h => hstay x h.1⟩
    rintro rfl
    exact ⟨.stay, fun n _ => Nat.zero_le n⟩
  · rw [List.mem_filter, decide_eq_true_eq]
    refine and_congr_right fun _ => ⟨fun hne n hn => ?_, ?_⟩
    · refine Nat.pos_of_ne_zero ?_
      rintro rfl
      exact hne (hstay x hn)
    · rintro hfar rfl
      exact Nat.lt_irrefl 0 (hfar 0 .stay)

/-- Following the steps from the frontier gets one farther. -/
theorem Surveyed.step {unseen frontier : List Nat}
    (h : Surveyed next nodes start d unseen frontier) (hnodes : ∀ x, ∀ y ∈ next x, y ∈ nodes) :
    Surveyed next nodes start (d + 1) (missed (frontier.flatMap next) unseen)
      (found (frontier.flatMap next) unseen) := by
  have hhead : ∀ y ∈ frontier.flatMap next, Way next start (d + 1) y := by
    intro y hy
    obtain ⟨x, hx, hstep⟩ := List.mem_flatMap.1 hy
    exact .go ((h.mem_frontier x).1 hx).1 hstep
  have hfound : ∀ y, y ∈ found (frontier.flatMap next) unseen ↔ Distance next start y (d + 1) := by
    intro y
    rw [mem_found, h.mem_unseen]
    constructor
    · rintro ⟨⟨_, hfar⟩, hy⟩
      exact ⟨hhead y hy, hfar⟩
    · intro hy
      obtain ⟨x, hx, hstep⟩ := hy.exists_previous
      exact ⟨⟨hnodes x y hstep, fun n hn => hy.2 hn⟩,
        List.mem_flatMap.2 ⟨x, (h.mem_frontier x).2 hx, hstep⟩⟩
  refine ⟨hfound, fun y => ?_⟩
  rw [mem_missed]
  constructor
  · rintro ⟨hunseen, hnot⟩
    obtain ⟨hnode, hfar⟩ := (h.mem_unseen y).1 hunseen
    refine ⟨hnode, fun n hn => Nat.lt_of_le_of_ne (hfar n hn) ?_⟩
    -- a way of that length would be a shortest one, and its last step would have been followed
    rintro rfl
    exact hnot (mem_found.1 ((hfound y).2 ⟨hn, hfar⟩)).2
  · rintro ⟨hnode, hfar⟩
    exact ⟨(h.mem_unseen y).2 ⟨hnode, fun n hn => Nat.lt_of_succ_lt (hfar n hn)⟩,
      fun hy => Nat.lt_irrefl _ (hfar _ (hhead y hy))⟩

/-- There is a layer after the frontier for each distance that is farther off. -/
theorem Surveyed.lt_length_layersAfter_iff {d : Nat} {unseen frontier : List Nat}
    (h : Surveyed next nodes start d unseen frontier) (hnodes : ∀ x, ∀ y ∈ next x, y ∈ nodes)
    (k : Nat) :
    k < (layersAfter next unseen frontier).length ↔ ∃ y, Distance next start y (d + 1 + k) := by
  have hstep := h.step hnodes
  rw [layersAfter]
  by_cases hempty : (found (frontier.flatMap next) unseen).isEmpty = true
  · rw [dif_pos hempty]
    refine ⟨fun hk => absurd hk (Nat.not_lt_zero k), ?_⟩
    rintro ⟨y, hy⟩
    obtain ⟨x, hx⟩ := hy.exists_of_le (Nat.le_add_right (d + 1) k)
    have hmem := (hstep.mem_frontier x).2 hx
    rw [List.isEmpty_iff.1 hempty] at hmem
    exact absurd hmem List.not_mem_nil
  · rw [dif_neg hempty, List.length_cons]
    cases k with
    | zero =>
      obtain ⟨y, hy⟩ := List.exists_mem_of_ne_nil _ (fun hnil => hempty (List.isEmpty_iff.2 hnil))
      exact ⟨fun _ => ⟨y, (hstep.mem_frontier y).1 hy⟩, fun _ => Nat.succ_pos _⟩
    | succ k =>
      rw [Nat.succ_lt_succ_iff, hstep.lt_length_layersAfter_iff hnodes k]
      have hsum : d + 1 + 1 + k = d + 1 + (k + 1) := by omega
      rw [hsum]
termination_by unseen.length
decreasing_by exact length_missed_lt hempty

/-- **There is a layer for each distance.** -/
theorem lt_length_layers_iff (hnodes : ∀ x, ∀ y ∈ next x, y ∈ nodes) (d : Nat) :
    d < (layers next nodes start).length ↔ ∃ y, Distance next start y d := by
  have hstart := surveyed_start next nodes start
  rw [layers, List.length_cons]
  cases d with
  | zero =>
    exact ⟨fun _ => ⟨start, (hstart.mem_frontier start).1 (List.mem_singleton_self start)⟩,
      fun _ => Nat.succ_pos _⟩
  | succ d =>
    rw [Nat.succ_lt_succ_iff, hstart.lt_length_layersAfter_iff hnodes d, Nat.zero_add, Nat.add_comm]

/-- Every layer takes at least one node. -/
theorem length_layersAfter_le (next : Nat → List Nat) (unseen frontier : List Nat) :
    (layersAfter next unseen frontier).length ≤ unseen.length := by
  rw [layersAfter]
  by_cases hempty : (found (frontier.flatMap next) unseen).isEmpty = true
  · rw [dif_pos hempty]
    exact Nat.zero_le _
  · rw [dif_neg hempty, List.length_cons]
    have hfewer := length_missed_lt hempty
    exact Nat.lt_of_le_of_lt (length_layersAfter_le next _ _) hfewer
termination_by unseen.length
decreasing_by exact length_missed_lt hempty

/-- The greatest distance is one less than the number of layers. -/
theorem isGreatest_length_layers (hnodes : ∀ x, ∀ y ∈ next x, y ∈ nodes) :
    IsGreatest {d | ∃ y, Distance next start y d} ((layers next nodes start).length - 1) := by
  have hpos : 0 < (layers next nodes start).length := Nat.succ_pos _
  refine ⟨(lt_length_layers_iff hnodes _).1 (Nat.sub_lt hpos Nat.one_pos), fun d hd => ?_⟩
  exact Nat.le_sub_one_of_lt ((lt_length_layers_iff hnodes d).2 hd)

end Layers

end Graph

/-! ## Walks of a chart -/

/-- The lengths of the walks from one state to another. -/
def Chart.walkLengths (c : Chart) (source target : String) : Set Nat :=
  {n | ∃ states, c.Walk source states target ∧ states.length = n}

namespace Graph

variable {c : Chart} {id : String} {node d n : Nat}

/-- Steps between nodes are walks between their states. -/
theorem exists_walk_of_way (hc : c.WellFormed)
    (h : Way (ofChart c).successors (ofChart c).initial n node) :
    ∃ s, c.states[node]? = some s ∧ n ∈ c.walkLengths c.initial s.id := by
  induction h with
  | stay =>
    obtain ⟨s, hs, hname⟩ := Chart.exists_state_of_position? (position?_initial_ofChart hc)
    exact ⟨s, hs, [], hname ▸ .stay _, rfl⟩
  | go _ hy ih =>
    obtain ⟨s, hs, states, hwalk, hlength⟩ := ih
    obtain ⟨s', hs', t, ht, htarget⟩ := mem_successors_ofChart.1 hy
    obtain rfl := Option.some.inj (hs.symm.trans hs')
    obtain ⟨next, hnext, hname⟩ := Chart.exists_state_of_position? htarget
    refine ⟨next, hnext, states ++ [next.id], hwalk.trans (.single ?_), ?_⟩
    · exact ⟨s, List.mem_of_getElem? hs, rfl, t, ht, hname.symm⟩
    · rw [List.length_append, hlength, List.length_singleton]

/-- Walks go on along the nodes of their states. -/
theorem way_of_walk (hc : c.WellFormed) {start : Nat} {source target : String}
    {states : List String} (h : c.Walk source states target)
    (hnode : c.position? source = some node) (hway : Way (ofChart c).successors start n node) :
    ∃ last, c.position? target = some last ∧
      Way (ofChart c).successors start (n + states.length) last := by
  induction h generalizing n node with
  | stay id => exact ⟨node, hnode, hway⟩
  | @go _ _ _ rest hstep _ ih =>
    obtain ⟨middle, hmiddle⟩ := Chart.exists_position? (hstep.target_mem hc)
    have hlonger := ih hmiddle (.go hway (hstep.mem_successors hc hnode hmiddle))
    rwa [List.length_cons, Nat.add_comm rest.length, ← Nat.add_assoc]

/-- The distance of a node is the length of a shortest walk to its state. -/
theorem distance_ofChart_iff (hc : c.WellFormed) (hnode : c.position? id = some node) :
    Distance (ofChart c).successors (ofChart c).initial node d ↔
      IsLeast (c.walkLengths c.initial id) d := by
  have hsame : {n | Way (ofChart c).successors (ofChart c).initial n node} =
      c.walkLengths c.initial id := by
    ext n
    constructor
    · intro hway
      obtain ⟨s, hs, hwalk⟩ := exists_walk_of_way hc hway
      have hname := Chart.getElem?_of_position? hnode
      rw [hs] at hname
      exact Option.some.inj hname ▸ hwalk
    · rintro ⟨states, hwalk, rfl⟩
      obtain ⟨last, hlast, hway⟩ := way_of_walk hc hwalk (position?_initial_ofChart hc) .stay
      rw [hnode] at hlast
      obtain rfl := Option.some.inj hlast
      rwa [Nat.zero_add] at hway
  rw [Distance, hsame]

theorem mem_nodes_of_mem_successors {target : Nat} (h : target ∈ (ofChart c).successors node) :
    target ∈ (ofChart c).nodes := by
  obtain ⟨_, _, t, _, htarget⟩ := mem_successors_ofChart.1 h
  exact mem_nodes_ofChart.2 (Chart.position?_lt htarget)

/-- The distances of nodes are those of states. -/
theorem exists_distance_ofChart_iff (hc : c.WellFormed) :
    (∃ node, Distance (ofChart c).successors (ofChart c).initial node d) ↔
      ∃ id ∈ c.stateIds, IsLeast (c.walkLengths c.initial id) d := by
  constructor
  · rintro ⟨node, hdistance⟩
    obtain ⟨s, hs, _⟩ := exists_walk_of_way hc hdistance.1
    exact ⟨s.id, List.mem_map_of_mem (List.mem_of_getElem? hs),
      (distance_ofChart_iff hc (hc.position?_of_getElem? hs)).1 hdistance⟩
  · rintro ⟨id, hid, hleast⟩
    obtain ⟨node, hnode⟩ := Chart.exists_position? hid
    exact ⟨node, (distance_ofChart_iff hc hnode).2 hleast⟩

/-- Each layer after the first takes one of the nodes other than the initial one. -/
theorem maxDepth_lt_length (hc : c.WellFormed) : (ofChart c).maxDepth < c.states.length := by
  have hinitial : (ofChart c).initial ∈ (ofChart c).nodes :=
    mem_nodes_ofChart.2 (Chart.position?_lt (position?_initial_ofChart hc))
  calc (ofChart c).maxDepth
      = (layersAfter (ofChart c).successors ((ofChart c).nodes.filter (· ≠ (ofChart c).initial))
          [(ofChart c).initial]).length := rfl
    _ ≤ ((ofChart c).nodes.filter (· ≠ (ofChart c).initial)).length :=
        length_layersAfter_le _ _ _
    _ < (ofChart c).nodes.length :=
        List.length_filter_lt_length_iff_exists.2 ⟨(ofChart c).initial, hinitial, by simp⟩
    _ = c.states.length := by simp [nodes, size, ofChart, Chart.stateIds]

/-- **The depth of a chart** is the greatest distance of a state from the initial one: the maximum,
over the states that transitions of the states on the way lead to, of the length of a shortest walk.
It is less than the number of the states. -/
theorem maxDepth_isGreatest (hd : c.IsDocument) :
    IsGreatest {d | ∃ id ∈ c.stateIds, IsLeast (c.walkLengths c.initial id) d}
      (ofChart c).maxDepth ∧
    (ofChart c).maxDepth < c.states.length := by
  have hc := hd.wellFormed
  refine ⟨?_, maxDepth_lt_length hc⟩
  have hgreatest : IsGreatest
      {d | ∃ node, Distance (ofChart c).successors (ofChart c).initial node d}
      (ofChart c).maxDepth :=
    isGreatest_length_layers fun _ _ => mem_nodes_of_mem_successors
  simpa only [exists_distance_ofChart_iff hc] using hgreatest

/-- No state of the door is more than one transition away from its initial state, though the door
can be opened and closed without end. -/
theorem maxDepth_isGreatest_door :
    Chart.door.IsDocument ∧
    IsGreatest
      {d | ∃ id ∈ Chart.door.stateIds, IsLeast (Chart.door.walkLengths Chart.door.initial id) d} 1 ∧
    1 < Chart.door.states.length := by
  have hdepth : (ofChart Chart.door).maxDepth = 1 := by
    rw [maxDepth, layers, layersAfter, dif_neg (by decide), layersAfter, dif_pos (by decide)]
    rfl
  have hgreatest := maxDepth_isGreatest Chart.isDocument_door
  rw [hdepth] at hgreatest
  exact ⟨Chart.isDocument_door, hgreatest⟩

end Graph

end Statechart
