import Statechart.Markup.Fault
set_option autoImplicit false

/-!
# Charts: broken rules

The rules that an element tree has to keep to be a chart, as the ways of breaking them, and the
reasons why a text is refused as a chart.
-/

namespace Statechart

/-- A rule of chart documents that is broken, with the names that the report mentions. -/
inductive Violation where
  /-- the root is no chart element -/
  | wrongRoot
  /-- an attribute name that no element of a chart has -/
  | unknownAttribute (name : String)
  /-- an element name that no part of a chart has -/
  | unknownElement (name : String)
  /-- the chart has no name -/
  | missingName
  /-- the chart's name ends with the separator, so that no class is named -/
  | missingClass
  /-- the chart has no state -/
  | noState
  /-- something else than a state directly inside the chart -/
  | strayInChart (name : String)
  /-- a state without id -/
  | missingStateId
  /-- a state id for the second time -/
  | repeatedState (id : String)
  /-- something else than a transition directly inside a state -/
  | strayInState (name id : String)
  /-- a transition without event -/
  | missingEvent
  /-- a transition without target -/
  | missingTarget
  /-- something else than an action directly inside a transition -/
  | strayInTransition (name event : String)
  /-- an element inside an action -/
  | strayInAction (name : String)
  /-- an action without id -/
  | missingActionId
  /-- the base attribute names no state -/
  | undeclaredBase (id : String)
  /-- the initial attribute names no state -/
  | undeclaredInitial (id : String)
  /-- a transition's target names no state -/
  | undeclaredTarget (id : String)
  deriving DecidableEq, Repr, Inhabited

/-- The wording of a broken rule. -/
def Violation.message : Violation → String
  | .wrongRoot => "document must be of type scxml"
  | .unknownAttribute name => "attribute " ++ name ++ " is not accepted"
  | .unknownElement name => "element " ++ name ++ " is not accepted"
  | .missingName => "scxml tag must contain a name attribute to specify output class"
  | .missingClass => "scxml name attribute must not end in a '.'"
  | .noState => "scxml must contain at least one state"
  | .strayInChart name => "element " ++ name ++ " is not allowed inside scxml"
  | .missingStateId => "every state must have an id attribute"
  | .repeatedState id => "state " ++ id ++ " is declared more than once"
  | .strayInState name id => "element " ++ name ++ " is not allowed inside state " ++ id
  | .missingEvent => "all transitions must be triggered by an event"
  | .missingTarget => "all transitions must have a target"
  | .strayInTransition name event =>
    "element " ++ name ++ " is not allowed inside transition " ++ event
  | .strayInAction name => "element " ++ name ++ " is not allowed inside action"
  | .missingActionId => "all actions must have an id attribute"
  | .undeclaredBase id => "referenced base state " ++ id ++ " is not declared"
  | .undeclaredInitial id => "referenced initial state " ++ id ++ " was not declared."
  | .undeclaredTarget id =>
    "target " ++ id ++ " does not represent a state declared in this document"

/-- Why a text is no chart. -/
inductive Rejection where
  /-- it is no markup document -/
  | markup (fault : Markup.Fault)
  /-- it is a document that breaks a rule -/
  | rule (violation : Violation)
  deriving DecidableEq, Repr, Inhabited

/-- The wording of a rejection. -/
def Rejection.message : Rejection → String
  | .markup fault => fault.message
  | .rule violation => violation.message

end Statechart
