set_option autoImplicit false

/-!
# Machines: errors

The ways in which a call to a machine fails.
-/

namespace Statechart

/-- Why a call to a machine fails. -/
inductive MachineError where
  /-- start on a machine that has been started -/
  | alreadyStarted
  /-- push on a machine that has not been started -/
  | notStarted
  /-- push from a hook of a push -/
  | reentrant (event : String)
  /-- neither the current state nor the base state has a transition for the event -/
  | unhandled (event state : String)
  /-- no transition of the chart has the event -/
  | unknownEvent (event : String)
  /-- a hook reports a failure of its own -/
  | hook (text : String)
  deriving DecidableEq, Repr, Inhabited

/-- The wording of a failure. -/
def MachineError.message : MachineError → String
  | .alreadyStarted => "machine has already been started"
  | .notStarted => "machine has not been started"
  | .reentrant event => "event " ++ event ++ " pushed while another event is being handled"
  | .unhandled event state => "event " ++ event ++ " is not handled in state " ++ state
  | .unknownEvent event => "event " ++ event ++ " is not declared by this machine"
  | .hook text => text

end Statechart
