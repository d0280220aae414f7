import Statechart.Chart.Basic
set_option autoImplicit false

/-!
# Graphs of charts

The directed multigraph behind a chart: a node per state, in document order, and an edge per
transition, in document order.  The transitions of the base state appear once, as edges that leave
the base node, and are marked as fallback edges because they serve every state.
-/

namespace Statechart

/-- One transition as an edge between state positions. -/
structure Edge where
  source : Nat
  target : Nat
  event : String
  actions : List String
  fallback : Bool
  deriving DecidableEq, Repr, Inhabited

/-- The states and transitions of a chart as a directed multigraph. -/
structure Graph where
  labels : List String
  edges : List Edge
  initial : Nat
  base? : Option Nat
  deriving DecidableEq, Repr, Inhabited

namespace Graph

/-- The position of the base state. -/
def basePosition? (c : Chart) : Option Nat :=
  c.baseState?.bind fun base => c.position? base.id

/-- The edges that leave one state. -/
def edgesOf (c : Chart) (source : Nat) (s : State) : List Edge :=
  s.transitions.filterMap fun t =>
    (c.position? t.target).map fun target =>
      ⟨source, target, t.event, t.actions, basePosition? c = some source⟩

/-- The graph of a chart. -/
def ofChart (c : Chart) : Graph where
  labels := c.stateIds
  edges := c.states.zipIdx.flatMap fun (s, source) => edgesOf c source s
  initial := (c.position? c.initial).getD 0
  base? := basePosition? c

/-- Number of nodes. -/
def size (g : Graph) : Nat :=
  g.labels.length

/-- All nodes, in document order. -/
def nodes (g : Graph) : List Nat :=
  List.range g.size

/-- The targets of the edges that leave a node; parallel edges count separately. -/
def successors (g : Graph) (node : Nat) : List Nat :=
  (g.edges.filter (·.source = node)).map (·.target)

/-- The labels of the nodes that pass a test, in document order. -/
def labelsWhere (g : Graph) (p : Nat → Bool) : List String :=
  (g.labels.zipIdx.filter fun (_, node) => p node).map (·.1)

/-! ## Counts -/

/-- The numbers that a report on a graph begins with. -/
structure Stats where
  states : Nat
  transitions : Nat
  fallbackTransitions : Nat
  terminalStates : Nat
  deriving DecidableEq, Repr, Inhabited

/-- Counts nodes, edges, fallback edges, and nodes that no edge leaves. -/
def stats (g : Graph) : Stats where
  states := g.size
  transitions := g.edges.length
  fallbackTransitions := g.edges.countP (·.fallback)
  terminalStates := g.nodes.countP fun node => (g.successors node).isEmpty

end Graph

end Statechart
