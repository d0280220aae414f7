import Statechart.Machine.Basic
set_option autoImplicit false

/-!
# Machines: recording hooks

Hooks that only remember what they were called for, in order, and what they remember of each call of
a machine.
-/

namespace Statechart

/-- Hooks that remember their calls and always succeed. -/
def Hooks.recorder : Hooks (List HookCall) where
  respond memory _ call := .finish (memory ++ [call]) (.ok ())

/-- A machine that records its hook calls. -/
def MachineSetup.recording (chart : Chart) : MachineSetup (List HookCall) where
  chart
  hooks := .recorder
  observer := true

/-- What recording hooks were called for between two moments of a machine. -/
def callsBetween (earlier later : Machine (List HookCall)) : List HookCall :=
  later.memory.drop earlier.memory.length

/-- One call of a recording machine: its outcome, the hook calls it made, and what can be seen after. -/
structure RecordedCall where
  outcome : Outcome
  calls : List HookCall
  view : MachineView

/-- Carries out requests in order and reports each of them. -/
def MachineSetup.recordAll (setup : MachineSetup (List HookCall)) :
    Machine (List HookCall) → List Request → List RecordedCall
  | _, [] => []
  | m, request :: requests =>
    let run := setup.perform request m
    ⟨run.outcome, callsBetween m run.machine, setup.view run.machine⟩
      :: setup.recordAll run.machine requests

end Statechart
