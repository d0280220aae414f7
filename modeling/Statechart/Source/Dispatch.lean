import Statechart.Source.Names
import Statechart.Source.Code
set_option autoImplicit false

/-!
# Source: dispatch

The part of the generated machine that decides what an event does.  Each state gets an arm for each
event it handles, and the base state's arms stand in a function of their own that is asked when no
arm fits.  What an arm does is first a list of steps (`dispatchSteps`), then lines.
-/

namespace Statechart.Source

/-- One line of an arm. -/
inductive DispatchStep where
  /-- tells the logger about the event -/
  | logEvent
  /-- tells the logger about an action -/
  | logAction (action : String)
  /-- calls the hook of an action -/
  | callHook (action : String)
  /-- enters the target and leaves the arm -/
  | enter (target : String)
  deriving DecidableEq, Repr, Inhabited

/-- The text of a step. -/
def DispatchStep.text : DispatchStep → String
  | .logEvent => "self.log_event(event);"
  | .logAction action => "self.log_action(\"" ++ action ++ "\");"
  | .callHook action => "self.after_hook(self.hooks." ++ hookName action ++ "(self))?;"
  | .enter target => "self.transition_to_state(State::" ++ target ++ ")"

/-- The steps for one action. -/
def actionSteps (debug : Bool) (action : String) : List DispatchStep :=
  (if debug then [.logAction action] else []) ++ [.callHook action]

/-- The steps that carry out a transition. -/
def dispatchSteps (debug : Bool) (t : Transition) : List DispatchStep :=
  (if debug then [.logEvent] else []) ++ t.actions.flatMap (actionSteps debug) ++ [.enter t.target]

/-- The transitions that can be taken: for each event the first one. -/
def firstPerEvent : List Transition → List Transition
  | [] => []
  | t :: ts => t :: (firstPerEvent ts).filter (·.event ≠ t.event)

/-- An arm for a transition. -/
def arm (debug : Bool) (pattern : String) (t : Transition) : Code :=
  .block (pattern ++ " =>") ((dispatchSteps debug t).map fun step => .line step.text)

/-- The pattern of an arm for an event in a state. -/
def localPattern (id event : String) : String :=
  "(State::" ++ id ++ ", Event::" ++ event ++ ")"

/-- The pattern of an arm for an event in any state. -/
def basePattern (event : String) : String :=
  "Event::" ++ event

/-- The arms of a state. -/
def localArms (debug : Bool) (s : State) : List Code :=
  (firstPerEvent s.transitions).map fun t => arm debug (localPattern s.id t.event) t

/-- The arms of the base state. -/
def baseArms (debug : Bool) (base : State) : List Code :=
  (firstPerEvent base.transitions).map fun t => arm debug (basePattern t.event) t

/-- The function that takes in an event. -/
def pushFunction (chart : Chart) : Code :=
  .block "pub fn push_event(&self, event: Event) -> Result<bool, StateError>"
    [.block "if self.lifecycle.get() != Lifecycle::Started"
        [.line "return Err(StateError::NotStarted);"],
      .block "if self.pushing_event.replace(true)"
        [.block "if self.rejected_event.get().is_none()"
            [.line "self.rejected_event.set(Some(event));"],
          .line "return Err(StateError::Reentrant(event));"],
      .block "let _guard = PushGuard"
        [.line "pushing: &self.pushing_event,", .line "rejected: &self.rejected_event,"] ";",
      .blank,
      .line "let state = self.current_state.get();",
      .block "match (state, event)"
        (chart.states.flatMap (localArms chart.debug)
          ++ [.line "#[allow(unreachable_patterns)]",
            .line "_ => self.handle_base_event(state, event),"])]

/-- The function that takes in an event for which the current state has no arm. -/
def baseFunction (chart : Chart) : Code :=
  .block "fn handle_base_event(&self, state: State, event: Event) -> Result<bool, StateError>"
    (match chart.baseState? with
    | some base =>
      [.block "match event"
        (baseArms chart.debug base
          ++ [.line "#[allow(unreachable_patterns)]",
            .line "_ => Err(StateError::Unhandled \x7b event, state \x7d),"])]
    | none => [.line "Err(StateError::Unhandled \x7b event, state \x7d)"])

end Statechart.Source
