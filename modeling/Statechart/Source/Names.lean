import Statechart.Chart.Basic
import Statechart.Source.Identifier
import Statechart.Source.SnakeCase
set_option autoImplicit false

/-!
# Source: names

Every name that reaches the generated source is checked before anything is written: the class, the
module named after it, the package segments, the states, the events, and the actions with the hooks
named after them.  The checks run in that order, and the first name that fails is reported.
-/

namespace Statechart.Source

/-- What is written around the generated machine. -/
structure SourceOptions where
  nestPackages : Bool := true
  header : Bool := true
  deriving DecidableEq, Repr, Inhabited

/-- Why no source can be generated. -/
inductive NameFault where
  /-- a name is no identifier; `kind` says what it names -/
  | invalid (kind name : String) (reason : IdentifierFault)
  /-- the class is called like an item that the module declares -/
  | generatedItem (className : String)
  /-- the class is called like something that the module refers to -/
  | referencedName (className : String)
  /-- two actions lead to one hook -/
  | sharedHook (first second hook : String)
  deriving DecidableEq, Repr, Inhabited

/-- The wording of a fault. -/
def NameFault.message : NameFault → String
  | .invalid kind name reason =>
    "invalid " ++ kind ++ " identifier '" ++ name ++ "': " ++ reason.message
  | .generatedItem className => "class name " ++ className ++ " clashes with a generated item"
  | .referencedName className =>
    "class name " ++ className ++ " shadows a name the generated module refers to"
  | .sharedHook first second hook =>
    "actions " ++ first ++ " and " ++ second ++ " both map to hook " ++ hook

/-- Items that every generated module declares beside its machine. -/
def generatedItems : List String :=
  ["State", "Event", "StateError", "DebugLogger", "Hooks", "Lifecycle", "PushGuard"]

/-- Names that every generated module refers to without a path. -/
def referencedNames : List String :=
  ["std", "Cell", "fmt", "FromStr", "Result", "Option", "Box", "String", "Sized", "Drop", "bool",
    "str", "H"]

/-- Checks one name. -/
def checkIdentifier (kind name : String) : Except NameFault Unit :=
  match identifierFault? name with
  | some reason => .error (.invalid kind name reason)
  | none => .ok ()

/-- The hook that serves an action. -/
def hookName (action : String) : String :=
  "on_action_" ++ snakeCase action

/-- The module that holds a class. -/
def moduleName (className : String) : String :=
  snakeCase className

/-- The segments of a package name. -/
def segments (cs : List Char) : List (List Char) :=
  match cs with
  | [] => [[]]
  | c :: cs =>
    if c = Chart.nameSeparator then [] :: segments cs
    else
      match segments cs with
      | [] => [[c]]
      | first :: rest => (c :: first) :: rest

/-- The packages that the generated module is nested in, outermost first. -/
def packages (chart : Chart) (options : SourceOptions) : List String :=
  match chart.package? with
  | some package => if options.nestPackages then (segments package.toList).map String.ofList else []
  | none => []

/-- Checks the class name and the module name that follows from it. -/
def checkClass (className : String) : Except NameFault Unit := do
  checkIdentifier "class" className
  if className ∈ generatedItems then throw (.generatedItem className)
  if className ∈ referencedNames then throw (.referencedName className)
  checkIdentifier "module" (moduleName className)

/-- Checks actions, and that their hooks differ from each other and from those of the `earlier`
actions. -/
def checkActions (earlier : List String) : List String → Except NameFault Unit
  | [] => .ok ()
  | action :: rest =>
    match checkIdentifier "action" action with
    | .error fault => .error fault
    | .ok () =>
      match earlier.find? (hookName · = hookName action) with
      | some other => .error (.sharedHook other action (hookName action))
      | none => checkActions (earlier ++ [action]) rest

/-- Checks every name that the generated source would contain. -/
def checkNames (chart : Chart) (options : SourceOptions) : Except NameFault Unit := do
  checkClass chart.className
  (packages chart options).forM (checkIdentifier "package segment")
  chart.stateIds.forM (checkIdentifier "state")
  chart.events.forM (checkIdentifier "event")
  checkActions [] chart.actions

end Statechart.Source
