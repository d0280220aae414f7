import Statechart.Source.Emitter
import Statechart.Source.Module
set_option autoImplicit false

/-!
# Source: emission call by call

The source of a chart as the calls that write it, one after the other.  Nothing pairs the call that
opens a block with the call that closes it: each function writes both by hand, around what other
functions emit.  The names are resolved first, and the hook of an action is looked up in the table of
hooks when a transition that performs the action is reached.
-/

namespace Statechart.Source

/-! ## Names -/

/-- The names that the source of a chart is written with. -/
structure Names where
  className : String
  module : String
  packages : List String
  /-- the hook of each action -/
  hooks : List (String × String)
  deriving DecidableEq, Repr

/-- Finds a hook for each action.  `hooks` are those found so far, and `owners` says which action each
of them belongs to. -/
def resolveHooks (hooks owners : List (String × String)) :
    List String → Except NameFault (List (String × String))
  | [] => .ok hooks
  | action :: rest =>
    match checkIdentifier "action" action with
    | .error fault => .error fault
    | .ok () =>
      let hook := "on_action_" ++ snakeCase action
      match owners.lookup hook with
      | some other => .error (.sharedHook other action hook)
      | none => resolveHooks (hooks ++ [(action, hook)]) (owners ++ [(hook, action)]) rest

/-- Resolves the names of a chart, or finds the first one that cannot be used. -/
def resolveNames (chart : Chart) (options : SourceOptions) : Except NameFault Names := do
  checkClass chart.className
  (packages chart options).forM (checkIdentifier "package segment")
  chart.stateIds.forM (checkIdentifier "state")
  chart.events.forM (checkIdentifier "event")
  let hooks ← resolveHooks [] [] chart.actions
  pure {
    className := chart.className
    module := moduleName chart.className
    packages := packages chart options
    hooks }

/-- The error for an action without a hook. -/
def missingHook (action : String) : String :=
  "no hook resolved for action " ++ action

/-- Looks up the hook of an action. -/
def findHook (table : List (String × String)) (action : String) : Except String String :=
  match table.lookup action with
  | some hook => .ok hook
  | none => .error (missingHook action)

/-! ## Enumerations -/

/-- Emits an enumeration. -/
def emitEnum (name : String) (variants : List String) : List Call :=
  [.line "#[derive(Debug, Clone, Copy, PartialEq, Eq, Hash)]",
    .opening ("pub enum " ++ name ++ " \x7b")]
    ++ variants.map (fun v => .line (v ++ ","))
    ++ [.closing "\x7d"]

/-- Emits the array of all variants and the function that gives their names. -/
def emitAllAndName (name : String) (variants : List String) : List Call :=
  [.line ("pub const ALL: [" ++ name ++ "; " ++ toString variants.length ++ "] = ["
      ++ String.intercalate ", " (variants.map fun v => name ++ "::" ++ v) ++ "];"),
    .blank,
    .opening "pub fn name(self) -> &'static str \x7b",
    .opening "match self \x7b"]
    ++ variants.map (fun v => .line (name ++ "::" ++ v ++ " => \"" ++ v ++ "\","))
    ++ [.closing "\x7d", .closing "\x7d"]

/-- Emits the display of an enumeration. -/
def emitDisplay (name : String) : List Call :=
  [.opening ("impl fmt::Display for " ++ name ++ " \x7b"),
    .opening "fn fmt(&self, f: &mut fmt::Formatter<'_>) -> fmt::Result \x7b",
    .line "f.write_str(self.name())",
    .closing "\x7d",
    .closing "\x7d"]

/-- Emits the enumeration of states. -/
def emitStates (chart : Chart) (names : Names) : List Call :=
  let states := chart.states.map (·.id)
  let terminal := chart.terminalStates.map fun s => "State::" ++ s.id
  [.line ("/// States of `" ++ names.className ++ "`, in declaration order")]
    ++ emitEnum "State" states
    ++ [.blank, .opening "impl State \x7b"]
    ++ emitAllAndName "State" states
    ++ [.blank,
      .line "/// True for states without outgoing transitions",
      .opening "pub fn is_terminal(self) -> bool \x7b",
      if terminal.isEmpty then .line "false"
      else .line ("matches!(self, " ++ String.intercalate " | " terminal ++ ")"),
      .closing "\x7d",
      .closing "\x7d",
      .blank]
    ++ emitDisplay "State"

/-- Emits the enumeration of events. -/
def emitEvents (chart : Chart) (names : Names) : List Call :=
  [.line ("/// Events accepted by `" ++ names.className ++ "`")]
    ++ emitEnum "Event" chart.events
    ++ [.blank, .opening "impl Event \x7b"]
    ++ emitAllAndName "Event" chart.events
    ++ [.closing "\x7d", .blank]
    ++ emitDisplay "Event"
    ++ [.blank,
      .opening "impl FromStr for Event \x7b",
      .line "type Err = StateError;",
      .blank,
      .opening "fn from_str(s: &str) -> Result<Self, Self::Err> \x7b",
      .line "Event::ALL",
      .line "    .into_iter()",
      .line "    .find(|event| event.name() == s)",
      .line "    .ok_or_else(|| StateError::UnknownEvent(s.to_string()))",
      .closing "\x7d",
      .closing "\x7d"]

/-! ## Errors and traits -/

/-- Emits the errors. -/
def emitErrors : List Call :=
  [.line "/// Illegal use of a running machine",
    .line "#[derive(Debug, Clone, PartialEq, Eq)]",
    .opening "pub enum StateError \x7b",
    .line "AlreadyStarted,",
    .line "NotStarted,",
    .line "Reentrant(Event),",
    .line "Unhandled \x7b event: Event, state: State \x7d,",
    .line "UnknownEvent(String),",
    .line "Hook(String),",
    .closing "\x7d",
    .blank,
    .opening "impl fmt::Display for StateError \x7b",
    .opening "fn fmt(&self, f: &mut fmt::Formatter<'_>) -> fmt::Result \x7b",
    .opening "match self \x7b",
    .line "StateError::AlreadyStarted => f.write_str(\"machine has already been started\"),",
    .line "StateError::NotStarted => f.write_str(\"machine has not been started\"),",
    .opening "StateError::Reentrant(event) => \x7b",
    .line "write!(f, \"event \x7b\x7d pushed while another event is being handled\", event)",
    .closing "\x7d",
    .opening "StateError::Unhandled \x7b event, state \x7d => \x7b",
    .line "write!(f, \"event \x7b\x7d is not handled in state \x7b\x7d\", event, state)",
    .closing "\x7d",
    .opening "StateError::UnknownEvent(name) => \x7b",
    .line "write!(f, \"event \x7b\x7d is not declared by this machine\", name)",
    .closing "\x7d",
    .line "StateError::Hook(message) => f.write_str(message),",
    .closing "\x7d",
    .closing "\x7d",
    .closing "\x7d",
    .blank,
    .line "impl std::error::Error for StateError \x7b\x7d"]

/-- Emits the traits, the life cycle and the guard. -/
def emitTraits (names : Names) : List Call :=
  [.line "/// Observer notified with literal names as a transition runs",
    .opening "pub trait DebugLogger \x7b",
    .line "fn on_event(&self, event: &str);",
    .line "fn on_action(&self, action: &str);",
    .line "fn on_state(&self, state: &str);",
    .closing "\x7d",
    .blank,
    .line ("/// Side effects supplied by the owner of a `" ++ names.className ++ "`"),
    .opening "pub trait Hooks: Sized \x7b",
    .line ("fn on_state_change(&self, fsm: &" ++ names.className
      ++ "<Self>, state: State) -> Result<(), StateError>;")]
    ++ names.hooks.map (fun entry =>
      .line ("fn " ++ entry.2 ++ "(&self, fsm: &" ++ names.className
        ++ "<Self>) -> Result<(), StateError>;"))
    ++ [.closing "\x7d",
      .blank,
      .line "#[derive(Debug, Clone, Copy, PartialEq, Eq)]",
      .opening "enum Lifecycle \x7b",
      .line "NotStarted,",
      .line "Started,",
      .closing "\x7d",
      .blank,
      .opening "struct PushGuard<'a> \x7b",
      .line "pushing: &'a Cell<bool>,",
      .line "rejected: &'a Cell<Option<Event>>,",
      .closing "\x7d",
      .blank,
      .opening "impl Drop for PushGuard<'_> \x7b",
      .opening "fn drop(&mut self) \x7b",
      .line "self.pushing.set(false);",
      .line "self.rejected.set(None);",
      .closing "\x7d",
      .closing "\x7d"]

/-! ## Dispatch -/

/-- Emits the calls of the hooks of some actions. -/
def emitActions (table : List (String × String)) (debug : Bool) :
    List String → Except String (List Call)
  | [] => .ok []
  | action :: rest => do
    let hook ← findHook table action
    let calls ← emitActions table debug rest
    pure ((if debug then [.line ("self.log_action(\"" ++ action ++ "\");")] else [])
      ++ .line ("self.after_hook(self.hooks." ++ hook ++ "(self))?;") :: calls)

/-- Emits what a transition does. -/
def emitBody (table : List (String × String)) (debug : Bool) (t : Transition) :
    Except String (List Call) := do
  let calls ← emitActions table debug t.actions
  pure ((if debug then [.line "self.log_event(event);"] else []) ++ calls
    ++ [.line ("self.transition_to_state(State::" ++ t.target ++ ")")])

/-- Emits an arm for each transition whose event has not been `seen` before; `head` is the first line
of an arm. -/
def emitArms (table : List (String × String)) (debug : Bool) (head : String → String)
    (seen : List String) : List Transition → Except String (List Call)
  | [] => .ok []
  | t :: ts =>
    if t.event ∈ seen then emitArms table debug head seen ts
    else do
      let body ← emitBody table debug t
      let arms ← emitArms table debug head (t.event :: seen) ts
      pure (.opening (head t.event) :: (body ++ .closing "\x7d" :: arms))

/-- Emits the function that takes in an event. -/
def emitPush (chart : Chart) (table : List (String × String)) : Except String (List Call) := do
  let arms ← chart.states.mapM fun s =>
    emitArms table chart.debug
      (fun event => "(State::" ++ s.id ++ ", Event::" ++ event ++ ") => \x7b") [] s.transitions
  pure ([.opening "pub fn push_event(&self, event: Event) -> Result<bool, StateError> \x7b",
    .opening "if self.lifecycle.get() != Lifecycle::Started \x7b",
    .line "return Err(StateError::NotStarted);",
    .closing "\x7d",
    .opening "if self.pushing_event.replace(true) \x7b",
    .opening "if self.rejected_event.get().is_none() \x7b",
    .line "self.rejected_event.set(Some(event));",
    .closing "\x7d",
    .line "return Err(StateError::Reentrant(event));",
    .closing "\x7d",
    .opening "let _guard = PushGuard \x7b",
    .line "pushing: &self.pushing_event,",
    .line "rejected: &self.rejected_event,",
    .closing "\x7d;",
    .blank,
    .line "let state = self.current_state.get();",
    .opening "match (state, event) \x7b"]
    ++ arms.flatten
    ++ [.line "#[allow(unreachable_patterns)]",
      .line "_ => self.handle_base_event(state, event),",
      .closing "\x7d",
      .closing "\x7d"])

/-- Emits what the function for events without an arm does. -/
def emitBaseArms (chart : Chart) (table : List (String × String)) : Except String (List Call) :=
  match chart.baseState? with
  | some base => do
    let arms ← emitArms table chart.debug (fun event => "Event::" ++ event ++ " => \x7b") []
      base.transitions
    pure (.opening "match event \x7b" :: (arms
      ++ [.line "#[allow(unreachable_patterns)]",
        .line "_ => Err(StateError::Unhandled \x7b event, state \x7d),",
        .closing "\x7d"]))
  | none => .ok [.line "Err(StateError::Unhandled \x7b event, state \x7d)"]

/-- Emits the function that takes in an event for which the current state has no arm. -/
def emitBase (chart : Chart) (table : List (String × String)) : Except String (List Call) := do
  let arms ← emitBaseArms chart table
  pure (.opening
      "fn handle_base_event(&self, state: State, event: Event) -> Result<bool, StateError> \x7b"
    :: (arms ++ [.closing "\x7d"]))

/-! ## The machine -/

/-- Emits a function that tells the logger about something. -/
def emitLog (name argument notify : String) : List Call :=
  [.blank,
    .opening ("fn " ++ name ++ "(&self, " ++ argument ++ ") \x7b"),
    .opening "if let Some(logger) = &self.debug_logger \x7b",
    .line notify,
    .closing "\x7d",
    .closing "\x7d"]

/-- Emits the machine up to the functions that take in events. -/
def emitMachineFront (chart : Chart) (names : Names) : List Call :=
  [.opening ("pub struct " ++ names.className ++ "<H> \x7b"),
    .line "hooks: H,",
    .line "lifecycle: Cell<Lifecycle>,",
    .line "current_state: Cell<State>,",
    .line "pushing_event: Cell<bool>,",
    .line "rejected_event: Cell<Option<Event>>,",
    .line "debug_logger: Option<Box<dyn DebugLogger>>,",
    .closing "\x7d",
    .blank,
    .opening ("impl<H: Hooks> " ++ names.className ++ "<H> \x7b"),
    .line ("pub const INITIAL_STATE: State = State::" ++ chart.initial ++ ";"),
    .blank,
    .opening "pub fn new(hooks: H) -> Self \x7b",
    .opening "Self \x7b",
    .line "hooks,",
    .line "lifecycle: Cell::new(Lifecycle::NotStarted),",
    .line "current_state: Cell::new(Self::INITIAL_STATE),",
    .line "pushing_event: Cell::new(false),",
    .line "rejected_event: Cell::new(None),",
    .line "debug_logger: None,",
    .closing "\x7d",
    .closing "\x7d",
    .blank,
    .opening "pub fn hooks(&self) -> &H \x7b",
    .line "&self.hooks",
    .closing "\x7d",
    .blank,
    .opening "pub fn set_debug_logger(&mut self, logger: Box<dyn DebugLogger>) \x7b",
    .line "self.debug_logger = Some(logger);",
    .closing "\x7d",
    .blank,
    .opening "pub fn debug_logger(&self) -> Option<&dyn DebugLogger> \x7b",
    .line "self.debug_logger.as_deref()",
    .closing "\x7d",
    .blank,
    .opening "pub fn current_state(&self) -> State \x7b",
    .line "self.current_state.get()",
    .closing "\x7d",
    .blank,
    .opening "pub fn is_in_terminal_state(&self) -> bool \x7b",
    .line "self.current_state.get().is_terminal()",
    .closing "\x7d",
    .blank,
    .opening "pub fn start(&self) -> Result<(), StateError> \x7b",
    .opening "if self.lifecycle.get() == Lifecycle::Started \x7b",
    .line "return Err(StateError::AlreadyStarted);",
    .closing "\x7d",
    .line "self.lifecycle.set(Lifecycle::Started);",
    .line "self.current_state.set(Self::INITIAL_STATE);",
    .line "self.hooks.on_state_change(self, Self::INITIAL_STATE)",
    .closing "\x7d",
    .blank]

/-- Emits the machine after the functions that take in events. -/
def emitMachineBack (debug : Bool) : List Call :=
  [.opening "fn transition_to_state(&self, state: State) -> Result<bool, StateError> \x7b",
    .line "self.current_state.set(state);"]
    ++ (if debug then [.line "self.log_state(state);"] else [])
    ++ [.line "self.after_hook(self.hooks.on_state_change(self, state))?;",
      .line "Ok(true)",
      .closing "\x7d",
      .blank,
      .opening
        "fn after_hook(&self, result: Result<(), StateError>) -> Result<(), StateError> \x7b",
      .opening "if let Some(event) = self.rejected_event.take() \x7b",
      .line "return Err(StateError::Reentrant(event));",
      .closing "\x7d",
      .line "result",
      .closing "\x7d"]
    ++ (if debug then
      emitLog "log_event" "event: Event" "logger.on_event(event.name());"
        ++ emitLog "log_action" "action: &str" "logger.on_action(action);"
        ++ emitLog "log_state" "state: State" "logger.on_state(state.name());"
      else [])
    ++ [.closing "\x7d"]

/-- Emits the machine. -/
def emitMachine (chart : Chart) (names : Names) : Except String (List Call) := do
  let push ← emitPush chart names.hooks
  let base ← emitBase chart names.hooks
  pure (emitMachineFront chart names ++ push ++ [.blank] ++ base ++ [.blank]
    ++ emitMachineBack chart.debug)

/-! ## The source -/

/-- Emits the source of a chart with resolved names. -/
def emitWith (chart : Chart) (options : SourceOptions) (names : Names) :
    Except String (List Call) := do
  let machine ← emitMachine chart names
  pure ((if options.header then [.line (headerLine chart), .blank] else [])
    ++ names.packages.map (fun segment => .opening ("pub mod " ++ segment ++ " \x7b"))
    ++ [.opening ("pub mod " ++ names.module ++ " \x7b"),
      .line "#![allow(dead_code, non_camel_case_types)]",
      .blank,
      .line "use std::cell::Cell;",
      .line "use std::fmt;",
      .line "use std::str::FromStr;",
      .blank]
    ++ emitStates chart names
    ++ [.blank]
    ++ emitEvents chart names
    ++ [.blank]
    ++ emitErrors
    ++ [.blank]
    ++ emitTraits names
    ++ [.blank]
    ++ machine
    ++ [.closing "\x7d"]
    ++ names.packages.map (fun _ => .closing "\x7d"))

/-- The calls that write the source of a chart, or the error of the first name that cannot be used or
of the first action without a hook. -/
def emitSource (chart : Chart) (options : SourceOptions) : Except String (List Call) :=
  match resolveNames chart options with
  | .error fault => .error fault.message
  | .ok names => emitWith chart options names

end Statechart.Source
