import Statechart.Chart.Violation
import Statechart.Markup.Element
set_option autoImplicit false

/-!
# Charts: vocabulary

The names that chart documents use.  `checkTree` looks at an element's own attribute names, then at
the names of its direct children, and only then inside the children, one after the other; the name of
the root is not its concern.
-/

namespace Statechart.Vocabulary

open Statechart.Markup

/-- The name of the root element. -/
def chartElement : String := "scxml"

/-- The name of the element that declares a state. -/
def stateElement : String := "state"

/-- The name of the element that declares a transition. -/
def transitionElement : String := "transition"

/-- The name of the element that declares an action. -/
def actionElement : String := "action"

/-- The element names of charts. -/
def elementNames : List String :=
  [chartElement, stateElement, transitionElement, actionElement]

/-- The attribute names of charts; any of them may stand on any element. -/
def attributeNames : List String :=
  ["xmlns", "version", "initial", "base", "debug", "name", "id", "event", "action", "target"]

/-- Checks the attribute names of an element and the names of its direct children. -/
def checkElement (e : Element) : Except Violation Unit :=
  match e.attributes.find? (·.name ∉ attributeNames) with
  | some a => .error (.unknownAttribute a.name)
  | none =>
    match e.children.find? (·.name ∉ elementNames) with
    | some child => .error (.unknownElement child.name)
    | none => .ok ()

mutual

/-- Checks an element and everything inside it. -/
def checkTree : Element → Except Violation Unit
  | ⟨name, attributes, children⟩ =>
    match checkElement ⟨name, attributes, children⟩ with
    | .error violation => .error violation
    | .ok () => checkAll children

/-- Checks elements one after the other, each with everything inside it. -/
def checkAll : List Element → Except Violation Unit
  | [] => .ok ()
  | e :: es =>
    match checkTree e with
    | .error violation => .error violation
    | .ok () => checkAll es

end

end Statechart.Vocabulary
