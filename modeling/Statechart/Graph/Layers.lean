import Statechart.Graph.Basic
set_option autoImplicit false

/-!
# Graphs: layers

Breadth-first layers.  The first layer holds the start; each further layer holds the nodes, not seen
before, that the layer before it leads to.  So layer `d` is the set of nodes at distance `d`, the
layers together are what the start reaches, and their number is one more than the greatest distance.
-/

namespace Statechart.Graph

/-- The nodes in `unseen` that are among the `heads` of the edges just followed. -/
def found (heads unseen : List Nat) : List Nat :=
  unseen.filter (heads.contains ·)

/-- The nodes in `unseen` that are not among the `heads` of the edges just followed. -/
def missed (heads unseen : List Nat) : List Nat :=
  unseen.filter (!heads.contains ·)

@[simp] theorem mem_found {heads unseen : List Nat} {node : Nat} :
    node ∈ found heads unseen ↔ node ∈ unseen ∧ node ∈ heads := by
  simp [found]

@[simp] theorem mem_missed {heads unseen : List Nat} {node : Nat} :
    node ∈ missed heads unseen ↔ node ∈ unseen ∧ node ∉ heads := by
  simp [missed]

theorem length_missed_lt {heads unseen : List Nat} (h : ¬(found heads unseen).isEmpty) :
    (missed heads unseen).length < unseen.length := by
  obtain ⟨node, hnode⟩ := List.exists_mem_of_ne_nil (found heads unseen) (by simpa using h)
  obtain ⟨hunseen, hhead⟩ := mem_found.1 hnode
  refine Nat.lt_of_le_of_ne (List.length_filter_le _ _) fun heq => ?_
  have hall := List.length_filter_eq_length_iff.1 heq node hunseen
  simp [hhead] at hall

/-- The layers after `frontier`, taken from the nodes in `unseen`. -/
def layersAfter (next : Nat → List Nat) (unseen frontier : List Nat) : List (List Nat) :=
  let heads := frontier.flatMap next
  if _h : (found heads unseen).isEmpty then []
  else found heads unseen :: layersAfter next (missed heads unseen) (found heads unseen)
termination_by unseen.length
decreasing_by exact length_missed_lt _h

/-- The layers of the nodes that `start` reaches by `next` among `nodes`. -/
def layers (next : Nat → List Nat) (nodes : List Nat) (start : Nat) : List (List Nat) :=
  [start] :: layersAfter next (nodes.filter (· ≠ start)) [start]

/-- Where a machine may go from a state: along the state's own edges and along those of the base. -/
def moves (g : Graph) (node : Nat) : List Nat :=
  g.successors node ++
    match g.base? with
    | some base => g.successors base
    | none => []

/-- The nodes that the initial node reaches, fallback edges being open to every node. -/
def reachableNodes (g : Graph) : List Nat :=
  (layers g.moves g.nodes g.initial).flatten

/-- The states that can become current, in document order. -/
def reachableStates (g : Graph) : List String :=
  g.labelsWhere (g.reachableNodes.contains ·)

/-- Whether some edge leads to a node. -/
def isTarget (g : Graph) (node : Nat) : Bool :=
  g.edges.any (·.target = node)

/-- The states that can never become current, in document order.  A base state that no transition
leads to is there for its transitions alone, and is left out. -/
def unreachableStates (g : Graph) : List String :=
  g.labelsWhere fun node =>
    (g.base? ≠ some node || g.isTarget node) && !g.reachableNodes.contains node

/-- The greatest number of transitions needed to reach a state from the initial one, base state
fallback aside. -/
def maxDepth (g : Graph) : Nat :=
  (layers g.successors g.nodes g.initial).length - 1

end Statechart.Graph
