import Statechart.Chart.Basic
set_option autoImplicit false

/-!
# Drawings

A chart as a drawing in the DOT language.  Initial and terminal states are ellipses, other states are
circles.  The base state is drawn last: its transitions first, then a node in a style of its own.
-/

namespace Statechart

/-- How a chart is drawn: columns of indentation, and the look of the base state. -/
structure GraphStyle where
  indent : Nat := 4
  baseShape : String := "doublecircle"
  baseColor : String := "blue"
  deriving DecidableEq, Repr, Inhabited

/-- The shapes of ordinary states. -/
inductive NodeShape where
  | ellipse
  | circle
  deriving DecidableEq, Repr, Inhabited

/-- The name of a shape in the drawing language. -/
def NodeShape.name : NodeShape → String
  | .ellipse => "ellipse"
  | .circle => "circle"

/-- A statement of a drawing. -/
inductive DrawStatement where
  /-- a state other than the base state -/
  | node (id : String) (shape : NodeShape)
  /-- a transition -/
  | edge (source target label : String)
  /-- the base state -/
  | baseNode (id shape color : String)
  deriving DecidableEq, Repr, Inhabited

/-- The text of a statement. -/
def DrawStatement.text : DrawStatement → String
  | .node id shape => id ++ " [shape=" ++ shape.name ++ "]"
  | .edge source target label =>
    source ++ " -> " ++ target ++ " [fontsize=10, label=\"" ++ label ++ "\"];"
  | .baseNode id shape color => id ++ "[shape=" ++ shape ++ ", color=" ++ color ++ "]"

namespace Chart

/-- The shape of an ordinary state. -/
def nodeShape (c : Chart) (s : State) : NodeShape :=
  if s.id = c.initial ∨ c.isTerminal s.id then .ellipse else .circle

/-- The statements for the transitions of a state. -/
def drawTransitions (s : State) : List DrawStatement :=
  s.transitions.map fun t => .edge s.id t.target t.label

/-- The statements of a chart's drawing. -/
def drawing (c : Chart) (style : GraphStyle) : List DrawStatement :=
  let ordinary := c.states.filter (!c.isBase ·.id)
  let base :=
    match c.baseState? with
    | some b => drawTransitions b ++ [.baseNode b.id style.baseShape style.baseColor]
    | none => []
  ordinary.flatMap (fun s => .node s.id (c.nodeShape s) :: drawTransitions s) ++ base

/-- The widest indentation that can be written. -/
def widestIndent : Nat := 65535

/-- The lines of a chart's drawing, for an indentation that can be written. -/
def dotLines (c : Chart) (style : GraphStyle) : List String :=
  let indent := String.ofList (List.replicate style.indent ' ')
  ["digraph " ++ c.className ++ " \x7b"]
    ++ (c.drawing style).map (fun statement => indent ++ statement.text)
    ++ ["\x7d"]

/-- The text of a chart's drawing; there is none if the indentation is too wide. -/
def dot? (c : Chart) (style : GraphStyle) : Option String :=
  if style.indent ≤ widestIndent then
    some (String.join ((c.dotLines style).map (· ++ "\n")))
  else none

end Chart

end Statechart
