import Statechart.Chart.Basic
import Statechart.Json.Printer
import Statechart.Json.Reader
set_option autoImplicit false

/-!
# States as JSON

A state and its transitions as JSON objects.  Reading accepts the members in any order, ignores
unknown ones, and also takes an array of exactly the fields in order.
-/

namespace Statechart

open Statechart.Json

/-! ## Writing -/

/-- A transition as an object. -/
def Transition.toJson (t : Transition) : Value :=
  .record [("event", .text t.event), ("target", .text t.target), ("actions", .texts t.actions)]

/-- A state as an object. -/
def State.toJson (s : State) : Value :=
  .record [("id", .text s.id), ("transitions", .array (s.transitions.map Transition.toJson))]

/-- The text of a state. -/
def State.toText (s : State) : String :=
  String.ofList s.toJson.compact

/-! ## Reading -/

/-- The text that a value holds. -/
def Json.Value.asText? : Value → Option String
  | .string units => textOf? units
  | _ => none

/-- The items that a value holds, each as `item?` takes it. -/
def Json.Value.asList? {α : Type} (item? : Value → Option α) : Value → Option (List α)
  | .array items => items.mapM item?
  | _ => none

/-- The members of an object by name; a name has to be a text. -/
def Json.Value.namedMembers? (members : List (List TextUnit × Value)) :
    Option (List (String × Value)) :=
  members.mapM fun (name, value) => (textOf? name).map (·, value)

/-- The value of the member called `name`, which occurs exactly once. -/
def Json.Value.member? (members : List (String × Value)) (name : String) : Option Value :=
  match members.filter (·.1 = name) with
  | [(_, value)] => some value
  | _ => none

/-- The transition that a value holds. -/
def Transition.ofJson? : Value → Option Transition
  | .object members => do
    let members ← Value.namedMembers? members
    let event ← (← Value.member? members "event").asText?
    let target ← (← Value.member? members "target").asText?
    let actions ← (← Value.member? members "actions").asList? Value.asText?
    some ⟨event, target, actions⟩
  | .array [event, target, actions] => do
    some ⟨← event.asText?, ← target.asText?, ← actions.asList? Value.asText?⟩
  | _ => none

/-- The state that a value holds. -/
def State.ofJson? : Value → Option State
  | .object members => do
    let members ← Value.namedMembers? members
    let id ← (← Value.member? members "id").asText?
    let transitions ← (← Value.member? members "transitions").asList? Transition.ofJson?
    some ⟨id, transitions⟩
  | .array [id, transitions] => do
    some ⟨← id.asText?, ← transitions.asList? Transition.ofJson?⟩
  | _ => none

/-- The state that a text holds. -/
def State.ofText? (text : String) : Option State :=
  (Value.ofText? text).bind State.ofJson?

end Statechart
