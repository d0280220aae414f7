import Statechart.Chart.OfElement
set_option autoImplicit false

/-!
# Documents built in one walk

A `Document` holds what is asked of a chart again and again as data: its events, actions, targets and
terminal states, the declared ids, and where the base state stands.  `Document.ofElement` fills it
while it walks once over the elements.  What the walk has seen so far is kept in a `Builder`, and each
reader takes note of a name as soon as it has read it, before it knows whether the rest of the element
keeps the rules.
-/

namespace Statechart

open Statechart.Markup

/-- A chart together with what its states show. -/
structure Document where
  className : String
  package? : Option String
  initial : String
  states : List State
  /-- where the base state stands among the states -/
  basePosition? : Option Nat
  /-- the ids of the states without transitions -/
  terminalIds : List String
  /-- the events, as an ordered set -/
  events : List String
  /-- the actions, as an ordered set -/
  actions : List String
  /-- the ids of all states, in document order -/
  declaredIds : List String
  /-- the targets, as an ordered set -/
  targets : List String
  debug : Bool
  deriving DecidableEq, Repr, Inhabited

namespace Document

/-! ## Answers of a document -/

/-- Package and class, divided by the separator. -/
def qualifiedName (d : Document) : String :=
  match d.package? with
  | some package => package ++ Chart.nameSeparator.toString ++ d.className
  | none => d.className

/-- The state with a given id. -/
def state? (d : Document) (id : String) : Option State :=
  d.states.find? (·.id = id)

/-- The position of a state in document order. -/
def position? (d : Document) (id : String) : Option Nat :=
  d.states.findIdx? (·.id = id)

/-- The initial state. -/
def initialState? (d : Document) : Option State :=
  d.state? d.initial

/-- The state at the position of the base state. -/
def baseState? (d : Document) : Option State :=
  d.basePosition?.bind (d.states[·]?)

/-- Whether the base state has this id. -/
def isBase (d : Document) (id : String) : Bool :=
  d.baseState?.any (·.id = id)

/-- The states that are listed as terminal, in document order. -/
def terminalStates (d : Document) : List State :=
  d.states.filter (·.id ∈ d.terminalIds)

/-- Whether an id is listed as terminal. -/
def isTerminal (d : Document) (id : String) : Bool :=
  d.terminalIds.any (· = id)

/-- The transition taken for an event in a state: the state's own first one, else the base state's
first one. -/
def resolve (d : Document) (id event : String) : Option Transition :=
  (d.state? id).bind fun s =>
    (s.transitionFor? event).or (d.baseState?.bind (·.transitionFor? event))

end Document

/-! ## What the walk has seen -/

/-- What has been seen of a chart element so far. -/
structure Builder where
  /-- the states that are complete -/
  states : List State := []
  /-- the ids of those among them that have no transition -/
  terminalIds : List String := []
  /-- the events, as an ordered set -/
  events : List String := []
  /-- the actions, as an ordered set -/
  actions : List String := []
  /-- the ids of all states that were begun -/
  declaredIds : List String := []
  /-- the distinct targets, in the order in which they were first seen -/
  targets : List String := []
  deriving DecidableEq, Repr, Inhabited

namespace Builder

/-- Takes note of an event. -/
def noteEvent (event : String) (b : Builder) : Builder :=
  { b with events := Text.insertOrdered event b.events }

/-- Takes note of a target, unless it was seen before. -/
def noteTarget (target : String) (b : Builder) : Builder :=
  if target ∈ b.targets then b else { b with targets := b.targets ++ [target] }

/-- Takes note of the actions of a transition, one after the other. -/
def noteActions (actions : List String) (b : Builder) : Builder :=
  { b with actions := actions.foldl (fun seen action => Text.insertOrdered action seen) b.actions }

/-- Begins a state. -/
def declare (id : String) (b : Builder) : Builder :=
  { b with declaredIds := b.declaredIds ++ [id] }

/-- Completes a state. -/
def addState (s : State) (b : Builder) : Builder :=
  { b with
    terminalIds := if s.isTerminal then b.terminalIds ++ [s.id] else b.terminalIds
    states := b.states ++ [s] }

/-- Readers that take notes and stop at the first broken rule. -/
abbrev Reader := StateT Builder (Except Violation)

/-- Reads elements one after the other and appends what they declare to `start`. -/
def appendEach {α : Type} (reader : Element → Reader α) (start : List α) (es : List Element) :
    Reader (List α) :=
  es.foldlM (fun found e => do
    let x ← reader e
    pure (found ++ [x])) start

/-- Reads a transition. -/
def readTransition (e : Element) : Reader Transition := do
  if e.attr "event" = "" then throw .missingEvent
  modify (·.noteEvent (e.attr "event"))
  if e.attr "target" = "" then throw .missingTarget
  modify (·.noteTarget (e.attr "target"))
  let actions ← appendEach (fun child => readAction (e.attr "event") child) (attributeAction e)
    e.children
  modify (·.noteActions actions)
  pure ⟨e.attr "event", e.attr "target", actions⟩

/-- Reads what is inside the state `id`. -/
def readInState (id : String) (child : Element) : Reader Transition := do
  if child.name ≠ Vocabulary.transitionElement then throw (.strayInState child.name id)
  readTransition child

/-- Reads a state. -/
def readState (e : Element) : Reader State := do
  if e.attr "id" = "" then throw .missingStateId
  if e.attr "id" ∈ (← get).declaredIds then throw (.repeatedState (e.attr "id"))
  modify (·.declare (e.attr "id"))
  let transitions ← appendEach (readInState (e.attr "id")) [] e.children
  pure ⟨e.attr "id", transitions⟩

/-- Reads a child of the chart element. -/
def readChild (child : Element) : Reader Unit := do
  if child.name ≠ Vocabulary.stateElement then throw (.strayInChart child.name)
  let state ← readState child
  modify (·.addState state)

end Builder

namespace Document

/-- Where the base state stands, if the chart element names one. -/
def findBase (root : Element) (states : List State) : Except Violation (Option Nat) :=
  if root.attr "base" = "" then .ok none
  else
    match states.findIdx? (·.id = root.attr "base") with
    | some position => .ok (some position)
    | none => .error (.undeclaredBase (root.attr "base"))

/-- The document that an element tree declares, or the first rule that it breaks. -/
def ofElement (root : Element) : Except Violation Document := do
  if root.name ≠ Vocabulary.chartElement then throw .wrongRoot
  Vocabulary.checkTree root
  if root.attr "name" = "" then throw .missingName
  if (root.attr "name").toList.getLast? = some Chart.nameSeparator then throw .missingClass
  if (root.childrenNamed Vocabulary.stateElement).isEmpty then throw .noState
  let (_, seen) ← (root.children.forM Builder.readChild).run {}
  let basePosition? ← findBase root seen.states
  let initial := Chart.initialName root seen.states
  if initial ∉ seen.declaredIds then throw (.undeclaredInitial initial)
  match seen.targets.find? (· ∉ seen.declaredIds) with
  | some target => throw (.undeclaredTarget target)
  | none =>
    let (className, package?) := Chart.splitName (root.attr "name")
    pure {
      className
      package?
      initial
      states := seen.states
      basePosition?
      terminalIds := seen.terminalIds
      events := seen.events
      actions := seen.actions
      declaredIds := seen.declaredIds
      targets := Text.orderedSet seen.targets
      debug := Chart.saysTrue (root.attr "debug") }

end Document

end Statechart
