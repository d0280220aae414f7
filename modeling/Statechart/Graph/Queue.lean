import Statechart.Graph.Layers
set_option autoImplicit false

/-!
# Graphs: search with a queue

Breadth-first search node by node.  Nodes that were found wait in a queue for their turn; a node whose
turn has come leads to its neighbours, and those that were not visited before are noted, one step
deeper, and put at the end of the queue.  The search ends when nothing waits.
-/

namespace Statechart.Graph

/-- A search in progress: the nodes that were visited, each with its depth, in the order in which they
were found, and those of them that still wait. -/
structure Search where
  depths : List (Nat × Nat)
  queue : List Nat
  deriving DecidableEq, Repr

namespace Search

/-- A search that begins at a node. -/
def starting (start : Nat) : Search :=
  ⟨[(start, 0)], [start]⟩

/-- The nodes that were visited. -/
def visited (s : Search) : List Nat :=
  s.depths.map (·.1)

/-- Notes a node and lets it wait, unless it was visited before. -/
def visit (depth : Nat) (s : Search) (node : Nat) : Search :=
  if node ∈ s.visited then s else ⟨s.depths ++ [(node, depth)], s.queue ++ [node]⟩

/-- One round: the node that has waited longest leads to its neighbours. -/
def step (next : Nat → List Nat) (s : Search) : Search :=
  match s.queue with
  | [] => s
  | node :: waiting =>
    (next node).foldl (visit ((s.depths.lookup node).getD 0 + 1)) ⟨s.depths, waiting⟩

/-- Several rounds. -/
def run (next : Nat → List Nat) : Nat → Search → Search
  | 0, s => s
  | rounds + 1, s => run next rounds (s.step next)

end Search

/-- Where a search goes from a node: along the node's own edges, and along those of the base unless
the node is the base. -/
def neighbours (g : Graph) (node : Nat) : List Nat :=
  g.successors node ++
    match g.base? with
    | some base => if base ≠ node then g.successors base else []
    | none => []

end Statechart.Graph
