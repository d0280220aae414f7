import Statechart.Chart.Basic
import Statechart.Chart.Vocabulary
import Statechart.Markup.Document
set_option autoImplicit false

/-!
# Charts from elements

Reads a chart off an element tree, or names the first rule that the tree breaks.  The order of the
rules is the order in which `Chart.ofElement` and the readers below state them: root, vocabulary,
name, presence of states, the states one after the other, base state, initial state, targets.
-/

namespace Statechart

open Statechart.Markup

/-- The action that an element inside the transition for `event` declares. -/
def readAction (event : String) (e : Element) : Except Violation String :=
  if e.name ≠ Vocabulary.actionElement then .error (.strayInTransition e.name event)
  else
    match e.children with
    | nested :: _ => .error (.strayInAction nested.name)
    | [] => if e.attr "id" = "" then .error .missingActionId else .ok (e.attr "id")

/-- The action that a transition element names by its attribute, if any. -/
def attributeAction (e : Element) : List String :=
  if e.attr "action" = "" then [] else [e.attr "action"]

/-- The transition that an element declares.  The action named by attribute comes first. -/
def Transition.ofElement (e : Element) : Except Violation Transition :=
  if e.attr "event" = "" then .error .missingEvent
  else if e.attr "target" = "" then .error .missingTarget
  else do
    let nested ← e.children.mapM (readAction (e.attr "event"))
    pure ⟨e.attr "event", e.attr "target", attributeAction e ++ nested⟩

/-- The transition that an element inside the state `id` declares. -/
def readTransition (id : String) (e : Element) : Except Violation Transition :=
  if e.name ≠ Vocabulary.transitionElement then .error (.strayInState e.name id)
  else Transition.ofElement e

/-- The state that an element declares; `declared` holds the ids of the states before it. -/
def State.ofElement (declared : List String) (e : Element) : Except Violation State :=
  if e.attr "id" = "" then .error .missingStateId
  else if e.attr "id" ∈ declared then .error (.repeatedState (e.attr "id"))
  else do
    let transitions ← e.children.mapM (readTransition (e.attr "id"))
    pure ⟨e.attr "id", transitions⟩

/-- The states that the children of a chart element declare; `declared` holds the ids of the states
before them. -/
def readStates (declared : List String) : List Element → Except Violation (List State)
  | [] => .ok []
  | e :: es =>
    if e.name ≠ Vocabulary.stateElement then .error (.strayInChart e.name)
    else do
      let state ← State.ofElement declared e
      let states ← readStates (declared ++ [state.id]) es
      pure (state :: states)

namespace Chart

/-- The part of a qualified name after its last separator, and the part before it. -/
def splitName (name : String) : String × Option String :=
  let reversed := name.toList.reverse
  let className := String.ofList (reversed.takeWhile (· ≠ nameSeparator)).reverse
  match reversed.dropWhile (· ≠ nameSeparator) with
  | [] => (className, none)
  | _ :: package => (className, some (String.ofList package.reverse))

/-- Whether a text says true, in any case. -/
def saysTrue (text : String) : Bool :=
  text.toList.map Char.toLower = ['t', 'r', 'u', 'e']

/-- The initial state of a chart element: what its attribute names, else the first state. -/
def initialName (root : Element) (states : List State) : String :=
  if root.attr "initial" = "" then (states.head?.map (·.id)).getD "" else root.attr "initial"

/-- The chart that an element tree declares, or the first rule that it breaks. -/
def ofElement (root : Element) : Except Violation Chart := do
  if root.name ≠ Vocabulary.chartElement then throw .wrongRoot
  Vocabulary.checkTree root
  if root.attr "name" = "" then throw .missingName
  if (root.attr "name").toList.getLast? = some nameSeparator then throw .missingClass
  if (root.childrenNamed Vocabulary.stateElement).isEmpty then throw .noState
  let states ← readStates [] root.children
  let ids := states.map (·.id)
  if root.attr "base" ≠ "" ∧ root.attr "base" ∉ ids then
    throw (.undeclaredBase (root.attr "base"))
  if initialName root states ∉ ids then throw (.undeclaredInitial (initialName root states))
  match (states.flatMap (·.transitions)).find? (·.target ∉ ids) with
  | some t => throw (.undeclaredTarget t.target)
  | none =>
    let (className, package?) := splitName (root.attr "name")
    pure {
      className
      package?
      initial := initialName root states
      base? := if root.attr "base" = "" then none else some (root.attr "base")
      debug := saysTrue (root.attr "debug")
      states }

/-- The chart that a markup text declares. -/
def ofText (text : String) : Except Rejection Chart :=
  match Element.ofText text with
  | .error fault => .error (.markup fault)
  | .ok root =>
    match ofElement root with
    | .error violation => .error (.rule violation)
    | .ok chart => .ok chart

end Chart

end Statechart
