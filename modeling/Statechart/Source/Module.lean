import Statechart.Source.Declarations
import Statechart.Source.Dispatch
set_option autoImplicit false

/-!
# Source: modules

The whole generated module: the machine itself, everything declared beside it, the packages around
it, and the line at the top that says where it comes from.
-/

namespace Statechart.Source

/-! ## The machine -/

/-- The machine's type. -/
def machineStruct (className : String) : Code :=
  .block ("pub struct " ++ className ++ "<H>")
    [.line "hooks: H,",
      .line "lifecycle: Cell<Lifecycle>,",
      .line "current_state: Cell<State>,",
      .line "pushing_event: Cell<bool>,",
      .line "rejected_event: Cell<Option<Event>>,",
      .line "debug_logger: Option<Box<dyn DebugLogger>>,"]

/-- The functions that make and inspect a machine. -/
def accessFunctions (chart : Chart) : List (List Code) :=
  [[.line ("pub const INITIAL_STATE: State = State::" ++ chart.initial ++ ";")],
    [.block "pub fn new(hooks: H) -> Self"
      [.block "Self"
        [.line "hooks,",
          .line "lifecycle: Cell::new(Lifecycle::NotStarted),",
          .line "current_state: Cell::new(Self::INITIAL_STATE),",
          .line "pushing_event: Cell::new(false),",
          .line "rejected_event: Cell::new(None),",
          .line "debug_logger: None,"]]],
    [.block "pub fn hooks(&self) -> &H" [.line "&self.hooks"]],
    [.block "pub fn set_debug_logger(&mut self, logger: Box<dyn DebugLogger>)"
      [.line "self.debug_logger = Some(logger);"]],
    [.block "pub fn debug_logger(&self) -> Option<&dyn DebugLogger>"
      [.line "self.debug_logger.as_deref()"]],
    [.block "pub fn current_state(&self) -> State" [.line "self.current_state.get()"]],
    [.block "pub fn is_in_terminal_state(&self) -> bool"
      [.line "self.current_state.get().is_terminal()"]]]

/-- The function that starts a machine. -/
def startFunction : Code :=
  .block "pub fn start(&self) -> Result<(), StateError>"
    [.block "if self.lifecycle.get() == Lifecycle::Started"
        [.line "return Err(StateError::AlreadyStarted);"],
      .line "self.lifecycle.set(Lifecycle::Started);",
      .line "self.current_state.set(Self::INITIAL_STATE);",
      .line "self.hooks.on_state_change(self, Self::INITIAL_STATE)"]

/-- The function that enters a state. -/
def enterFunction (debug : Bool) : Code :=
  .block "fn transition_to_state(&self, state: State) -> Result<bool, StateError>"
    ([.line "self.current_state.set(state);"]
      ++ (if debug then [.line "self.log_state(state);"] else [])
      ++ [.line "self.after_hook(self.hooks.on_state_change(self, state))?;", .line "Ok(true)"])

/-- The function that looks for a push that was refused while a hook ran. -/
def afterHookFunction : Code :=
  .block "fn after_hook(&self, result: Result<(), StateError>) -> Result<(), StateError>"
    [.block "if let Some(event) = self.rejected_event.take()"
        [.line "return Err(StateError::Reentrant(event));"],
      .line "result"]

/-- A function that tells the logger about something. -/
def logFunction (name argument notify : String) : Code :=
  .block ("fn " ++ name ++ "(&self, " ++ argument ++ ")")
    [.block "if let Some(logger) = &self.debug_logger" [.line notify]]

/-- The functions that tell the logger about events, actions and states. -/
def logFunctions : List (List Code) :=
  [[logFunction "log_event" "event: Event" "logger.on_event(event.name());"],
    [logFunction "log_action" "action: &str" "logger.on_action(action);"],
    [logFunction "log_state" "state: State" "logger.on_state(state.name());"]]

/-- The machine: its type and its functions.  The logging functions are there for debugging only. -/
def machineItems (chart : Chart) : List (List Code) :=
  [[machineStruct chart.className],
    [.block ("impl<H: Hooks> " ++ chart.className ++ "<H>")
      (spaced
        (accessFunctions chart
          ++ [[startFunction], [pushFunction chart], [baseFunction chart],
            [enterFunction chart.debug], [afterHookFunction]]
          ++ (if chart.debug then logFunctions else [])))]]

/-! ## The module -/

/-- What stands at the top of the module. -/
def preambleItems : List (List Code) :=
  [[.line "#![allow(dead_code, non_camel_case_types)]"],
    [.line "use std::cell::Cell;", .line "use std::fmt;", .line "use std::str::FromStr;"]]

/-- The module of a chart. -/
def moduleCode (chart : Chart) : Code :=
  .block ("pub mod " ++ moduleName chart.className)
    (spaced
      (preambleItems ++ stateItems chart ++ eventItems chart ++ errorItems ++ traitItems chart
        ++ machineItems chart))

/-- Code inside packages, outermost first. -/
def nest (packages : List String) (code : Code) : Code :=
  packages.foldr (fun package inner => .block ("pub mod " ++ package) [inner]) code

/-- The line that names the chart that the source was generated from. -/
def headerLine (chart : Chart) : String :=
  "// @generated by scxml-fsm from `" ++ chart.qualifiedName ++ "`. Do not edit."

/-- The lines of the generated source. -/
def sourceLines (chart : Chart) (options : SourceOptions) : List CodeLine :=
  (if options.header then [.filled 0 (headerLine chart), .blank] else [])
    ++ (nest (packages chart options) (moduleCode chart)).lines 0

/-- The generated source of a chart, or the first name that cannot be used in it. -/
def generate (chart : Chart) (options : SourceOptions) : Except NameFault String :=
  match checkNames chart options with
  | .error fault => .error fault
  | .ok () => .ok (renderLines (sourceLines chart options))

end Statechart.Source
