import Statechart.Text.Ordered
set_option autoImplicit false

/-!
# Charts

A chart is a flat state machine: states in document order, each with its transitions, an initial
state, and possibly a base state whose transitions serve every state that has none of its own for an
event.  Everything else that is asked of a chart (its events, actions, targets, terminal states) is
a view of the states.
-/

namespace Statechart

/-- A transition out of a state: the event that triggers it, the state it leads to, and the actions
performed on the way, in order. -/
structure Transition where
  event : String
  target : String
  actions : List String
  deriving DecidableEq, Repr, Inhabited

/-- The label drawn on a transition: its event, then its actions in parentheses.  Lines are divided
by the two characters that the drawing language reads as a line break. -/
def Transition.label (t : Transition) : String :=
  if t.actions.isEmpty then t.event
  else t.event ++ "\\n(" ++ String.intercalate ",\\n" t.actions ++ ")"

/-- A state with its transitions in document order. -/
structure State where
  id : String
  transitions : List Transition
  deriving DecidableEq, Repr, Inhabited

namespace State

/-- A state is terminal when no transition leaves it. -/
def isTerminal (s : State) : Bool :=
  s.transitions.isEmpty

/-- The first transition for an event, in document order. -/
def transitionFor? (s : State) (event : String) : Option Transition :=
  s.transitions.find? (·.event = event)

end State

/-- A state machine. -/
structure Chart where
  className : String
  package? : Option String
  initial : String
  base? : Option String
  debug : Bool
  states : List State
  deriving DecidableEq, Repr, Inhabited

namespace Chart

/-- The character between the parts of a qualified name. -/
def nameSeparator : Char := '.'

/-- Package and class, divided by the separator. -/
def qualifiedName (c : Chart) : String :=
  match c.package? with
  | some package => package ++ nameSeparator.toString ++ c.className
  | none => c.className

/-- The same chart under another class name. -/
def rename (c : Chart) (className : String) : Chart :=
  { c with className }

/-! ## States -/

/-- The state with a given id. -/
def state? (c : Chart) (id : String) : Option State :=
  c.states.find? (·.id = id)

/-- The position of a state in document order. -/
def position? (c : Chart) (id : String) : Option Nat :=
  c.states.findIdx? (·.id = id)

/-- The ids of all states, in document order. -/
def stateIds (c : Chart) : List String :=
  c.states.map (·.id)

/-- The initial state. -/
def initialState? (c : Chart) : Option State :=
  c.state? c.initial

/-- The base state, if the chart names one. -/
def baseState? (c : Chart) : Option State :=
  c.base?.bind c.state?

/-- Whether the base state has this id. -/
def isBase (c : Chart) (id : String) : Bool :=
  c.baseState?.any (·.id = id)

/-- The terminal states, in document order. -/
def terminalStates (c : Chart) : List State :=
  c.states.filter (·.isTerminal)

/-- Whether a terminal state has this id. -/
def isTerminal (c : Chart) (id : String) : Bool :=
  c.terminalStates.any (·.id = id)

/-! ## Transitions -/

/-- All transitions: state by state, each in document order. -/
def transitions (c : Chart) : List Transition :=
  c.states.flatMap (·.transitions)

/-- The events of all transitions, as an ordered set. -/
def events (c : Chart) : List String :=
  Text.orderedSet (c.transitions.map (·.event))

/-- The actions of all transitions, as an ordered set. -/
def actions (c : Chart) : List String :=
  Text.orderedSet (c.transitions.flatMap (·.actions))

/-- The targets of all transitions, as an ordered set. -/
def targets (c : Chart) : List String :=
  Text.orderedSet (c.transitions.map (·.target))

/-- The transition taken for an event in a state: the state's own first one, else the base state's
first one. -/
def resolve (c : Chart) (id event : String) : Option Transition :=
  (c.state? id).bind fun s =>
    (s.transitionFor? event).or (c.baseState?.bind (·.transitionFor? event))

@[simp] theorem mem_transitions {c : Chart} {t : Transition} :
    t ∈ c.transitions ↔ ∃ s ∈ c.states, t ∈ s.transitions := by
  simp [transitions]

@[simp] theorem mem_events {c : Chart} {event : String} :
    event ∈ c.events ↔ ∃ t ∈ c.transitions, t.event = event := by
  simp [events]

@[simp] theorem mem_actions {c : Chart} {action : String} :
    action ∈ c.actions ↔ ∃ t ∈ c.transitions, action ∈ t.actions := by
  simp [actions]

@[simp] theorem mem_targets {c : Chart} {target : String} :
    target ∈ c.targets ↔ ∃ t ∈ c.transitions, t.target = target := by
  simp [targets]

end Chart

end Statechart
