import Mathlib.Order.Bounds.Basic
import Mathlib.Order.Nat
import Statechart.Graph.Queue
import Statechart.Proofs.Graph.Distance
set_option autoImplicit false

/-!
# Graphs: the queue and the layers

A search with a queue visits nodes one by one, while layers are taken whole.  The rounds of a search
are grouped here into sweeps: a sweep takes all nodes that wait at its beginning, and these are the
nodes at one distance (`Swept`).  During a sweep the queue holds what is left of this layer and, after
it, what was found of the next one (`run_sweep`).

So a search ends with every node at its distance (`exists_run_starting`), whatever the order of the
neighbours.  What it visits is what the layers hold, and the greatest depth it notes is one less than
their number.
-/

namespace Statechart.Graph

namespace Search

variable {next : Nat → List Nat}

/-! ## Rounds -/

theorem run_add (m n : Nat) (s : Search) : run next (m + n) s = run next n (run next m s) := by
  induction m generalizing s with
  | zero => rw [Nat.zero_add, run]
  | succ m ih => rw [Nat.succ_add, run, ih, run]

/-- A node leads to those of its neighbours that were not visited before. -/
theorem foldl_visit (depth : Nat) (s : Search) (heads : List Nat) :
    ∃ fresh, heads.foldl (visit depth) s =
        ⟨s.depths ++ fresh.map fun node => (node, depth), s.queue ++ fresh⟩ ∧
      ∀ y, y ∈ fresh ↔ y ∈ heads ∧ y ∉ s.visited := by
  induction heads generalizing s with
  | nil => exact ⟨[], by simp, by simp⟩
  | cons head heads ih =>
    rw [List.foldl_cons]
    by_cases hseen : head ∈ s.visited
    · have hvisit : s.visit depth head = s := if_pos hseen
      obtain ⟨fresh, hrun, hfresh⟩ := ih s
      rw [hvisit]
      refine ⟨fresh, hrun, fun y => ?_⟩
      rw [hfresh]
      grind
    · have hvisit : s.visit depth head = ⟨s.depths ++ [(head, depth)], s.queue ++ [head]⟩ :=
        if_neg hseen
      obtain ⟨fresh, hrun, hfresh⟩ := ih ⟨s.depths ++ [(head, depth)], s.queue ++ [head]⟩
      rw [hvisit, hrun]
      refine ⟨head :: fresh, by simp, fun y => ?_⟩
      rw [List.mem_cons, hfresh]
      simp only [visited, List.map_append, List.mem_append] at hseen ⊢
      grind

/-- A sweep through the nodes in front of the queue, all noted at one depth. -/
theorem run_sweep (next : Nat → List Nat) {d : Nat} (layer found : List Nat) (depths : List (Nat × Nat))
    (hlayer : ∀ x ∈ layer, depths.lookup x = some d) :
    ∃ fresh, run next layer.length ⟨depths, layer ++ found⟩ =
        ⟨depths ++ fresh.map fun node => (node, d + 1), found ++ fresh⟩ ∧
      ∀ y, y ∈ fresh ↔ y ∈ layer.flatMap next ∧ y ∉ depths.map (·.1) := by
  induction layer generalizing found depths with
  | nil => exact ⟨[], by simp [run], by simp⟩
  | cons node layer ih =>
    obtain ⟨first, hstep, hfirst⟩ := foldl_visit (d + 1) ⟨depths, layer ++ found⟩ (next node)
    have hround : step next ⟨depths, node :: layer ++ found⟩ =
        ⟨depths ++ first.map fun node => (node, d + 1), layer ++ (found ++ first)⟩ := by
      have hdepth := hlayer node List.mem_cons_self
      show (next node).foldl (visit ((depths.lookup node).getD 0 + 1)) ⟨depths, layer ++ found⟩ = _
      rw [hdepth, ← List.append_assoc]
      exact hstep
    have hkept : ∀ x ∈ layer,
        (depths ++ first.map fun node => (node, d + 1)).lookup x = some d := by
      intro x hx
      rw [List.lookup_append, hlayer x (List.mem_cons_of_mem _ hx)]
      rfl
    obtain ⟨rest, hrun, hrest⟩ := ih (found ++ first) _ hkept
    refine ⟨first ++ rest, ?_, fun y => ?_⟩
    · rw [List.length_cons, run, hround, hrun]
      simp
    · have hkeys : (first.map fun node => (node, d + 1)).map (·.1) = first := by
        rw [List.map_map]
        exact List.map_id first
      rw [List.mem_append, hfirst, hrest, List.flatMap_cons, List.map_append, hkeys, visited]
      grind

end Search

/-! ## Sweeps -/

section Sweeps

variable {next : Nat → List Nat} {start : Nat}

/-- A search between two sweeps: what waits is what lies at a distance, and what was visited is noted
with its distance up to that one. -/
structure Swept (next : Nat → List Nat) (start d : Nat) (s : Search) : Prop where
  mem_queue : ∀ x, x ∈ s.queue ↔ Distance next start x d
  mem_depths : ∀ x m, (x, m) ∈ s.depths ↔ Distance next start x m ∧ m ≤ d

theorem swept_starting (next : Nat → List Nat) (start : Nat) :
    Swept next start 0 (Search.starting start) := by
  have hfrontier := (surveyed_start next [] start).mem_frontier
  refine ⟨hfrontier, fun x m => ?_⟩
  constructor
  · intro hmem
    obtain ⟨rfl, rfl⟩ := Prod.mk.inj (List.mem_singleton.1 hmem)
    exact ⟨(hfrontier x).1 (List.mem_singleton_self x), Nat.le_refl 0⟩
  · rintro ⟨hdistance, hm⟩
    obtain rfl := Nat.le_zero.1 hm
    obtain rfl := List.mem_singleton.1 ((hfrontier x).2 hdistance)
    exact List.mem_singleton_self _

/-- There is a shortest way to a node that ways lead to. -/
theorem Way.exists_distance {n x : Nat} (h : Way next start n x) :
    ∃ d ≤ n, Distance next start x d := by
  classical
  have hex : ∃ n, Way next start n x := ⟨n, h⟩
  exact ⟨Nat.find hex, Nat.find_min' hex h, Nat.isLeast_find hex⟩

/-- What is noted once is looked up as it was noted. -/
theorem lookup_eq_some_of_unique {depths : List (Nat × Nat)} {x d : Nat} (h : (x, d) ∈ depths)
    (hunique : ∀ m, (x, m) ∈ depths → m = d) : depths.lookup x = some d := by
  induction depths with
  | nil => exact absurd h List.not_mem_nil
  | cons entry depths ih =>
    obtain ⟨y, m⟩ := entry
    rw [List.lookup_cons]
    by_cases heq : x = y
    · subst heq
      rw [hunique m List.mem_cons_self]
      simp
    · have hrest : (x, d) ∈ depths := by
        rcases List.mem_cons.1 h with hhead | hrest
        · exact absurd (Prod.mk.inj hhead).1 heq
        · exact hrest
      rw [beq_eq_false_iff_ne.2 heq]
      exact ih hrest fun m hm => hunique m (List.mem_cons_of_mem _ hm)

/-- What waits was noted at the distance of the sweep. -/
theorem Swept.lookup_depths {d x : Nat} {s : Search} (h : Swept next start d s) (hx : x ∈ s.queue) :
    s.depths.lookup x = some d := by
  have hdistance := (h.mem_queue x).1 hx
  refine lookup_eq_some_of_unique ((h.mem_depths x d).2 ⟨hdistance, Nat.le_refl d⟩) fun m hm => ?_
  exact IsLeast.unique ((h.mem_depths x m).1 hm).1 hdistance

theorem Swept.mem_visited {d y : Nat} {s : Search} (h : Swept next start d s) :
    y ∈ s.visited ↔ ∃ m ≤ d, Distance next start y m := by
  constructor
  · intro hy
    obtain ⟨⟨_, m⟩, hm, rfl⟩ := List.mem_map.1 hy
    obtain ⟨hdistance, hle⟩ := (h.mem_depths _ m).1 hm
    exact ⟨m, hle, hdistance⟩
  · rintro ⟨m, hle, hdistance⟩
    exact List.mem_map.2 ⟨(y, m), (h.mem_depths y m).2 ⟨hdistance, hle⟩, rfl⟩

/-- The neighbours of what waits that were not visited before lie one farther. -/
theorem Swept.fresh_iff {d y : Nat} {s : Search} (h : Swept next start d s) :
    y ∈ s.queue.flatMap next ∧ y ∉ s.visited ↔ Distance next start y (d + 1) := by
  rw [h.mem_visited]
  constructor
  · rintro ⟨hhead, hnew⟩
    obtain ⟨x, hx, hy⟩ := List.mem_flatMap.1 hhead
    obtain ⟨m, hm, hdistance⟩ := (Way.go ((h.mem_queue x).1 hx).1 hy).exists_distance
    -- a shorter way would have been found by an earlier sweep
    rcases Nat.le_or_eq_of_le_succ hm with hle | rfl
    · exact absurd ⟨m, hle, hdistance⟩ hnew
    · exact hdistance
  · intro hdistance
    obtain ⟨x, hx, hy⟩ := hdistance.exists_previous
    refine ⟨List.mem_flatMap.2 ⟨x, (h.mem_queue x).2 hx, hy⟩, ?_⟩
    rintro ⟨m, hle, hm⟩
    have hsame : m = d + 1 := IsLeast.unique hm hdistance
    omega

/-- **One sweep** gets one farther. -/
theorem Swept.step {d : Nat} {s : Search} (h : Swept next start d s) :
    Swept next start (d + 1) (Search.run next s.queue.length s) := by
  obtain ⟨fresh, hrun, hfresh⟩ :=
    Search.run_sweep next s.queue [] s.depths fun x hx => h.lookup_depths hx
  rw [List.append_nil, List.nil_append] at hrun
  have hqueue : ∀ y, y ∈ fresh ↔ Distance next start y (d + 1) := fun y =>
    (hfresh y).trans h.fresh_iff
  have hs : Search.run next s.queue.length s =
      ⟨s.depths ++ fresh.map fun node => (node, d + 1), fresh⟩ := hrun
  rw [hs]
  refine ⟨hqueue, fun x m => ?_⟩
  have hnew : (x, m) ∈ fresh.map (fun node => (node, d + 1)) ↔ x ∈ fresh ∧ m = d + 1 := by
    simp [eq_comm]
  rw [List.mem_append, h.mem_depths, hnew, hqueue]
  constructor
  · rintro (⟨hdistance, hle⟩ | ⟨hdistance, rfl⟩)
    · exact ⟨hdistance, Nat.le_succ_of_le hle⟩
    · exact ⟨hdistance, Nat.le_refl _⟩
  · rintro ⟨hdistance, hle⟩
    rcases Nat.le_or_eq_of_le_succ hle with hle | rfl
    · exact .inl ⟨hdistance, hle⟩
    · exact .inr ⟨hdistance, rfl⟩

/-- **All sweeps** up to a distance. -/
theorem exists_swept (next : Nat → List Nat) (start d : Nat) :
    ∃ rounds, Swept next start d (Search.run next rounds (.starting start)) := by
  induction d with
  | zero => exact ⟨0, swept_starting next start⟩
  | succ d ih =>
    obtain ⟨rounds, hswept⟩ := ih
    refine ⟨rounds + (Search.run next rounds (.starting start)).queue.length, ?_⟩
    rw [Search.run_add]
    exact hswept.step

/-- **A search ends**, and then it has noted exactly the nodes that ways lead to, at their
distances. -/
theorem exists_run_starting {nodes : List Nat} (hnodes : ∀ x, ∀ y ∈ next x, y ∈ nodes)
    (start : Nat) :
    ∃ rounds depths, Search.run next rounds (.starting start) = ⟨depths, []⟩ ∧
      ∀ x d, (x, d) ∈ depths ↔ Distance next start x d := by
  obtain ⟨rounds, hswept⟩ := exists_swept next start (layers next nodes start).length
  have hnone : ∀ d y, Distance next start y d → d < (layers next nodes start).length :=
    fun d y hy => (lt_length_layers_iff hnodes d).2 ⟨y, hy⟩
  refine ⟨rounds, _, congrArg (Search.mk _) ?_, fun x d => ?_⟩
  · rw [List.eq_nil_iff_forall_not_mem]
    intro x hx
    exact Nat.lt_irrefl _ (hnone _ x ((hswept.mem_queue x).1 hx))
  · rw [hswept.mem_depths]
    exact ⟨fun h => h.1, fun h => ⟨h, Nat.le_of_lt (hnone d x h)⟩⟩

/-! ## Layers -/

/-- The layers after a frontier hold what lies farther off, distance by distance. -/
theorem Surveyed.mem_layersAfter_iff {nodes unseen frontier : List Nat} {d : Nat}
    (h : Surveyed next nodes start d unseen frontier) (hnodes : ∀ x, ∀ y ∈ next x, y ∈ nodes)
    (x k : Nat) :
    (∃ layer, (layersAfter next unseen frontier)[k]? = some layer ∧ x ∈ layer) ↔
      Distance next start x (d + 1 + k) := by
  have hstep := h.step hnodes
  rw [layersAfter]
  by_cases hempty : (found (frontier.flatMap next) unseen).isEmpty = true
  · rw [dif_pos hempty]
    constructor
    · rintro ⟨layer, hlayer, -⟩
      simp at hlayer
    · intro hx
      obtain ⟨y, hy⟩ := hx.exists_of_le (Nat.le_add_right (d + 1) k)
      have hmem := (hstep.mem_frontier y).2 hy
      rw [List.isEmpty_iff.1 hempty] at hmem
      exact absurd hmem List.not_mem_nil
  · rw [dif_neg hempty]
    cases k with
    | zero =>
      rw [List.getElem?_cons_zero, Nat.add_zero, ← hstep.mem_frontier]
      simp
    | succ k =>
      rw [List.getElem?_cons_succ, hstep.mem_layersAfter_iff hnodes x k]
      have hsum : d + 1 + 1 + k = d + 1 + (k + 1) := by omega
      rw [hsum]
termination_by unseen.length
decreasing_by exact length_missed_lt hempty

/-- A layer holds what lies at its distance. -/
theorem mem_layers_iff {nodes : List Nat} (hnodes : ∀ x, ∀ y ∈ next x, y ∈ nodes) (x d : Nat) :
    (∃ layer, (layers next nodes start)[d]? = some layer ∧ x ∈ layer) ↔
      Distance next start x d := by
  have hstart := surveyed_start next nodes start
  rw [layers]
  cases d with
  | zero =>
    rw [List.getElem?_cons_zero, ← hstart.mem_frontier]
    simp
  | succ d =>
    rw [List.getElem?_cons_succ, hstart.mem_layersAfter_iff hnodes x d, Nat.zero_add, Nat.add_comm]

/-- Distances do not depend on the order of the neighbours. -/
theorem distance_congr {visit : Nat → List Nat} (h : ∀ x y, y ∈ visit x ↔ y ∈ next x) {x d : Nat} :
    Distance visit start x d ↔ Distance next start x d := by
  have hway {visit next : Nat → List Nat} (h : ∀ x y, y ∈ visit x → y ∈ next x) {n x : Nat}
      (hx : Way visit start n x) : Way next start n x := by
    induction hx with
    | stay => exact .stay
    | go _ hy ih => exact .go ih (h _ _ hy)
  have hsame : {n | Way visit start n x} = {n | Way next start n x} :=
    Set.ext fun n => ⟨hway fun x y => (h x y).1, hway fun x y => (h x y).2⟩
  rw [Distance, hsame]
  rfl

/-- **The queue finds what the layers hold, at the same depths.**  The neighbours may be visited in
any order, and more than once. -/
theorem exists_run_eq_layers {nodes : List Nat} (hnodes : ∀ x, ∀ y ∈ next x, y ∈ nodes)
    {visit : Nat → List Nat} (hvisit : ∀ x y, y ∈ visit x ↔ y ∈ next x) (start : Nat) :
    ∃ rounds depths, Search.run visit rounds (.starting start) = ⟨depths, []⟩ ∧
      ∀ x d, (x, d) ∈ depths ↔
        ∃ layer, (layers next nodes start)[d]? = some layer ∧ x ∈ layer := by
  have hvisited : ∀ x, ∀ y ∈ visit x, y ∈ nodes := fun x y hy => hnodes x y ((hvisit x y).1 hy)
  obtain ⟨rounds, depths, hrun, hdepths⟩ := exists_run_starting hvisited start
  refine ⟨rounds, depths, hrun, fun x d => ?_⟩
  rw [hdepths, distance_congr hvisit, mem_layers_iff hnodes]

end Sweeps

/-! ## Searches in the graph of a chart -/

section OfChart

variable {c : Chart} {visit : Nat → List Nat}

/-- Leaving out the base state's own edges a second time leaves nothing out. -/
theorem mem_neighbours {g : Graph} {x y : Nat} : y ∈ g.neighbours x ↔ y ∈ g.moves x := by
  rw [mem_moves, neighbours, List.mem_append]
  cases g.base? with
  | none => simp
  | some base =>
    by_cases hbase : base = x
    · simp [hbase]
    · simp [hbase]

theorem mem_nodes_of_mem_moves {x y : Nat} (h : y ∈ (ofChart c).moves x) :
    y ∈ (ofChart c).nodes := by
  rcases mem_moves.1 h with hown | ⟨_, _, hlent⟩
  · exact mem_nodes_of_mem_successors hown
  · exact mem_nodes_of_mem_successors hlent

/-- **Reachable states by a queue.**  The states that a search through the neighbours visits are those
that the layers hold. -/
theorem reachableStates_eq_search (hvisit : ∀ x y, y ∈ visit x ↔ y ∈ (ofChart c).neighbours x) :
    ∃ rounds s, Search.run visit rounds (.starting (ofChart c).initial) = s ∧ s.queue = [] ∧
      (ofChart c).reachableStates = (ofChart c).labelsWhere (s.visited.contains ·) := by
  have hmoves : ∀ x y, y ∈ visit x ↔ y ∈ (ofChart c).moves x := fun x y =>
    (hvisit x y).trans mem_neighbours
  obtain ⟨rounds, depths, hrun, hdepths⟩ := exists_run_eq_layers
    (fun _ _ => mem_nodes_of_mem_moves) hmoves (ofChart c).initial
  refine ⟨rounds, _, hrun, rfl, congrArg (ofChart c).labelsWhere (funext fun node => ?_)⟩
  rw [Bool.eq_iff_iff, List.contains_iff_mem, List.contains_iff_mem, reachableNodes,
    List.mem_flatten, Search.visited, List.mem_map]
  constructor
  · rintro ⟨layer, hlayer, hnode⟩
    obtain ⟨d, hd⟩ := List.mem_iff_getElem?.1 hlayer
    exact ⟨(node, d), (hdepths node d).2 ⟨layer, hd, hnode⟩, rfl⟩
  · rintro ⟨⟨_, d⟩, hmem, rfl⟩
    obtain ⟨layer, hlayer, hnode⟩ := (hdepths _ d).1 hmem
    exact ⟨layer, List.mem_of_getElem? hlayer, hnode⟩

/-- **Depth by a queue.**  The greatest depth that a search along the edges notes is the depth of the
chart. -/
theorem maxDepth_eq_search (hvisit : ∀ x y, y ∈ visit x ↔ y ∈ (ofChart c).successors x) :
    ∃ rounds s, Search.run visit rounds (.starting (ofChart c).initial) = s ∧ s.queue = [] ∧
      (ofChart c).maxDepth = (s.depths.map (·.2)).max?.getD 0 := by
  have hnodes : ∀ x, ∀ y ∈ (ofChart c).successors x, y ∈ (ofChart c).nodes :=
    fun _ _ => mem_nodes_of_mem_successors
  obtain ⟨rounds, depths, hrun, hdepths⟩ :=
    exists_run_eq_layers hnodes hvisit (ofChart c).initial
  have hdepth : ∀ d, d ∈ depths.map (·.2) ↔
      ∃ y, Distance (ofChart c).successors (ofChart c).initial y d := by
    intro d
    simp only [List.mem_map, Prod.exists, hdepths, mem_layers_iff hnodes]
    grind
  have hgreatest : IsGreatest
      {d | ∃ y, Distance (ofChart c).successors (ofChart c).initial y d} (ofChart c).maxDepth :=
    isGreatest_length_layers hnodes
  have hmax : (depths.map (·.2)).max? = some (ofChart c).maxDepth :=
    List.max?_eq_some_iff.2 ⟨(hdepth _).2 hgreatest.1, fun d hd => hgreatest.2 ((hdepth d).1 hd)⟩
  refine ⟨rounds, _, hrun, rfl, ?_⟩
  rw [hmax]
  rfl

end OfChart

end Statechart.Graph
