import Statechart.Source.Names
import Statechart.Source.Code
set_option autoImplicit false

/-!
# Source: declarations

The items of the generated module that stand beside its machine: the enumerations of states and
events, the errors, the traits, and the guard that marks a push in progress.  Each function gives
groups of code, which the module separates by empty lines.
-/

namespace Statechart.Source

/-! ## Enumerations -/

/-- A variant of an enumeration, as it is referred to. -/
def variantPath (enumeration variant : String) : String :=
  enumeration ++ "::" ++ variant

/-- An enumeration with its variants in order, under a comment. -/
def enumDeclaration (comment name : String) (variants : List String) : List Code :=
  [.line comment,
    .line "#[derive(Debug, Clone, Copy, PartialEq, Eq, Hash)]",
    .block ("pub enum " ++ name) (variants.map fun v => .line (v ++ ","))]

/-- The array of all variants. -/
def allVariants (name : String) (variants : List String) : Code :=
  .line ("pub const ALL: [" ++ name ++ "; " ++ toString variants.length ++ "] = ["
    ++ String.intercalate ", " (variants.map (variantPath name)) ++ "];")

/-- The function that gives the name of a variant. -/
def nameFunction (name : String) (variants : List String) : Code :=
  .block "pub fn name(self) -> &'static str"
    [.block "match self"
      (variants.map fun v => .line (variantPath name v ++ " => \"" ++ v ++ "\","))]

/-- The function that tells the terminal states. -/
def terminalFunction (chart : Chart) : List Code :=
  let terminal := chart.terminalStates.map fun s => variantPath "State" s.id
  [.line "/// True for states without outgoing transitions",
    .block "pub fn is_terminal(self) -> bool"
      [.line (if terminal.isEmpty then "false"
        else "matches!(self, " ++ String.intercalate " | " terminal ++ ")")]]

/-- The display of an enumeration: the name of the variant. -/
def displayByName (name : String) : Code :=
  .block ("impl fmt::Display for " ++ name)
    [.block "fn fmt(&self, f: &mut fmt::Formatter<'_>) -> fmt::Result"
      [.line "f.write_str(self.name())"]]

/-- The enumeration of states, in document order. -/
def stateItems (chart : Chart) : List (List Code) :=
  [enumDeclaration ("/// States of `" ++ chart.className ++ "`, in declaration order") "State"
      chart.stateIds,
    [.block "impl State"
      (spaced [[allVariants "State" chart.stateIds], [nameFunction "State" chart.stateIds],
        terminalFunction chart])],
    [displayByName "State"]]

/-- The function that finds the event with a given name. -/
def eventFromName : Code :=
  .block "impl FromStr for Event"
    (spaced [[.line "type Err = StateError;"],
      [.block "fn from_str(s: &str) -> Result<Self, Self::Err>"
        [.line "Event::ALL",
          .line "    .into_iter()",
          .line "    .find(|event| event.name() == s)",
          .line "    .ok_or_else(|| StateError::UnknownEvent(s.to_string()))"]]])

/-- The enumeration of events, in name order. -/
def eventItems (chart : Chart) : List (List Code) :=
  [enumDeclaration ("/// Events accepted by `" ++ chart.className ++ "`") "Event" chart.events,
    [.block "impl Event"
      (spaced [[allVariants "Event" chart.events], [nameFunction "Event" chart.events]])],
    [displayByName "Event"],
    [eventFromName]]

/-! ## Errors, traits and the guard -/

/-- The errors of the generated machine. -/
def errorItems : List (List Code) :=
  [[.line "/// Illegal use of a running machine",
      .line "#[derive(Debug, Clone, PartialEq, Eq)]",
      .block "pub enum StateError"
        [.line "AlreadyStarted,",
          .line "NotStarted,",
          .line "Reentrant(Event),",
          .line "Unhandled \x7b event: Event, state: State \x7d,",
          .line "UnknownEvent(String),",
          .line "Hook(String),"]],
    [.block "impl fmt::Display for StateError"
      [.block "fn fmt(&self, f: &mut fmt::Formatter<'_>) -> fmt::Result"
        [.block "match self"
          [.line "StateError::AlreadyStarted => f.write_str(\"machine has already been started\"),",
            .line "StateError::NotStarted => f.write_str(\"machine has not been started\"),",
            .block "StateError::Reentrant(event) =>"
              [.line ("write!(f, \"event \x7b\x7d pushed while another event is being handled\", "
                ++ "event)")],
            .block "StateError::Unhandled \x7b event, state \x7d =>"
              [.line ("write!(f, \"event \x7b\x7d is not handled in state \x7b\x7d\", "
                ++ "event, state)")],
            .block "StateError::UnknownEvent(name) =>"
              [.line "write!(f, \"event \x7b\x7d is not declared by this machine\", name)"],
            .line "StateError::Hook(message) => f.write_str(message),"]]]],
    [.line "impl std::error::Error for StateError \x7b\x7d"]]

/-- The signature of the hook of an action. -/
def hookSignature (className action : String) : Code :=
  .line ("fn " ++ hookName action ++ "(&self, fsm: &" ++ className
    ++ "<Self>) -> Result<(), StateError>;")

/-- The trait that the owner of a machine implements: one method for state changes and one for each
action, in the order of the actions' names. -/
def hooksTrait (chart : Chart) : List Code :=
  [.line ("/// Side effects supplied by the owner of a `" ++ chart.className ++ "`"),
    .block "pub trait Hooks: Sized"
      (.line ("fn on_state_change(&self, fsm: &" ++ chart.className
          ++ "<Self>, state: State) -> Result<(), StateError>;")
        :: chart.actions.map (hookSignature chart.className))]

/-- The traits, the life cycle and the guard. -/
def traitItems (chart : Chart) : List (List Code) :=
  [[.line "/// Observer notified with literal names as a transition runs",
      .block "pub trait DebugLogger"
        [.line "fn on_event(&self, event: &str);",
          .line "fn on_action(&self, action: &str);",
          .line "fn on_state(&self, state: &str);"]],
    hooksTrait chart,
    [.line "#[derive(Debug, Clone, Copy, PartialEq, Eq)]",
      .block "enum Lifecycle" [.line "NotStarted,", .line "Started,"]],
    [.block "struct PushGuard<'a>"
      [.line "pushing: &'a Cell<bool>,", .line "rejected: &'a Cell<Option<Event>>,"]],
    [.block "impl Drop for PushGuard<'_>"
      [.block "fn drop(&mut self)"
        [.line "self.pushing.set(false);", .line "self.rejected.set(None);"]]]]

end Statechart.Source
