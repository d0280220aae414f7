import Statechart.Machine.Basic
set_option autoImplicit false

/-!
# Machines: several over one chart

Several machines may run the same chart.  Each call is addressed to one of them by its number.
-/

namespace Statechart

/-- A call addressed to one machine. -/
structure AddressedRequest where
  machine : Nat
  request : Request
  deriving DecidableEq, Repr, Inhabited

/-- What is reported of one call: how it ended, the machine's look after it, and what happened. -/
structure CallReport where
  outcome : Outcome
  view : MachineView
  trace : List TraceEntry

namespace MachineSetup

variable {σ : Type}

/-- The report of a run. -/
def report (s : MachineSetup σ) (run : Run σ) : CallReport :=
  ⟨run.outcome, s.view run.machine, run.trace⟩

/-- Answers calls one after the other, each by the machine it is addressed to.  A call to a machine
that does not exist has no report. -/
def performAll (s : MachineSetup σ) (machines : List (Machine σ)) :
    List AddressedRequest → List (Option CallReport)
  | [] => []
  | call :: calls =>
    match machines[call.machine]? with
    | none => none :: s.performAll machines calls
    | some m =>
      let run := s.perform call.request m
      some (s.report run) :: s.performAll (machines.set call.machine run.machine) calls

end MachineSetup

end Statechart
