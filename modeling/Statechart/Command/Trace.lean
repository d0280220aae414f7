import Statechart.Command.Basic
import Statechart.Machine.Recorder
set_option autoImplicit false

/-!
# Running a chart

The lines that report a machine's run: one for the start, one for each event that the machine took,
and one at the end if the machine rests in a terminal state.
-/

namespace Statechart

/-- The width of the column with the event of a step. -/
def eventWidth : Nat := 20

/-- The line that reports a step. -/
def stepLine (event : String) (actions : List String) (state : String) : String :=
  padded eventWidth event ++ " -> " ++ state
    ++ (if actions.isEmpty then "" else " (" ++ String.intercalate ", " actions ++ ")")

/-- The actions among hook calls. -/
def calledActions (calls : List HookCall) : List String :=
  calls.filterMap fun
    | .action name => some name
    | .stateChange _ => none

/-- The state that hook calls lead to. -/
def calledState (calls : List HookCall) : String :=
  calls.foldl (fun state call =>
    match call with
    | .action _ => state
    | .stateChange id => id) ""

namespace MachineSetup

/-- The line at the end of a run. -/
def endLines (setup : MachineSetup (List HookCall)) (m : Machine (List HookCall)) : List String :=
  if (setup.view m).terminal then
    [stepLine "(terminal)" [] ((setup.view m).state?.getD "")]
  else []

/-- The lines for the events that are left, and the error that ends the run early. -/
def traceEvents (setup : MachineSetup (List HookCall)) :
    Machine (List HookCall) → List String → List String × Option MachineError
  | m, [] => (setup.endLines m, none)
  | m, event :: events =>
    let run := setup.perform (.push event) m
    match run.outcome with
    | .error cause => ([], some cause)
    | .ok () =>
      let calls := callsBetween m run.machine
      let (lines, cause?) := setup.traceEvents run.machine events
      (stepLine event (calledActions calls) (calledState calls) :: lines, cause?)

end MachineSetup

/-- The report of a run of a chart over events. -/
def Chart.trace (chart : Chart) (events : List String) : List String × Option MachineError :=
  let setup := MachineSetup.recording chart
  let run := setup.perform .start { memory := [] }
  match run.outcome with
  | .error cause => ([], some cause)
  | .ok () =>
    let (lines, cause?) := setup.traceEvents run.machine events
    (stepLine "(start)" [] chart.initial :: lines, cause?)

end Statechart
