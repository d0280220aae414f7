import Statechart.Graph.Layers
set_option autoImplicit false

/-!
# Graphs: patterns

The shape of a chart.  A graph has a cycle exactly if some nodes remain after removing, round after
round, every node from which no edge leads to a remaining node.
-/

namespace Statechart.Graph

/-- The nodes that lead to one of `nodes`, themselves taken from `nodes`. -/
def leadingInside (next : Nat → List Nat) (nodes : List Nat) : List Nat :=
  nodes.filter fun node => (next node).any (nodes.contains ·)

/-- What remains of `nodes` after removing, as often as possible, the nodes that lead to no
remaining one. -/
def peel (next : Nat → List Nat) (nodes : List Nat) : List Nat :=
  if (leadingInside next nodes).length < nodes.length then peel next (leadingInside next nodes)
  else nodes
termination_by nodes.length

/-- Whether some non-empty row of edges leads from a node back to it. -/
def hasCycles (g : Graph) : Bool :=
  !(peel g.successors g.nodes).isEmpty

/-- The three shapes of charts. -/
inductive Pattern where
  /-- no cycle, and at most one transition leaves each state -/
  | linear
  /-- no cycle, and several transitions leave some state -/
  | branching
  /-- a state can be left and entered again -/
  | cyclic
  deriving DecidableEq, Repr, Inhabited

/-- The name of a pattern. -/
def Pattern.name : Pattern → String
  | .linear => "Linear"
  | .branching => "Branching"
  | .cyclic => "Cyclic"

/-- The shape of a graph. -/
def pattern (g : Graph) : Pattern :=
  if g.hasCycles then .cyclic
  else if g.nodes.all fun node => (g.successors node).length ≤ 1 then .linear
  else .branching

end Statechart.Graph
