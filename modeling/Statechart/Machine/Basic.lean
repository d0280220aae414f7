import Statechart.Chart.Basic
import Statechart.Machine.Script
set_option autoImplicit false

/-!
# Machines

Runs a chart.  A machine is started once and then handles one event at a time: it performs the
actions of the transition that the chart resolves the event to, enters the target, and tells the
hooks about each step.

Hooks may call the machine back.  While a push is being handled every further push is refused, the
refused event is remembered, and the hook's caller fails the transition, whatever the hook made of
the refusal.  The hook that `start` calls may push, since no push is in progress then.  Calls by
hooks are therefore answered by a function that is one level less deep (`performWithin`); two levels
are enough, since starting and pushing are each refused inside themselves.
-/

namespace Statechart

/-- The changing part of a machine: where it is, whether a push is in progress, the first push
refused during it, and the memory of the hooks. -/
structure Machine (σ : Type) where
  lifecycle : Lifecycle := .notStarted
  current? : Option Nat := none
  pushing : Bool := false
  rejected? : Option String := none
  memory : σ

/-- What a call to a machine leads to: the machine after it, what happened on the way, and how the
call ended. -/
structure Run (σ : Type) where
  machine : Machine σ
  trace : List TraceEntry
  outcome : Outcome

namespace Run

variable {σ : Type}

/-- The run of a call that is answered at once. -/
def answer (m : Machine σ) (outcome : Outcome) : Run σ :=
  ⟨m, [], outcome⟩

/-- The run with entries before its own. -/
def after (r : Run σ) (entries : List TraceEntry) : Run σ :=
  { r with trace := entries ++ r.trace }

/-- Goes on with `next` unless the run failed. -/
def andThen (r : Run σ) (next : Machine σ → Run σ) : Run σ :=
  match r.outcome with
  | .error _ => r
  | .ok () => (next r.machine).after r.trace

/-- The run of a hook as its caller takes it: if the hook pushed an event, the caller fails with the
first one, whatever the hook returned. -/
def settle (r : Run σ) : Run σ :=
  match r.machine.rejected? with
  | some event =>
    { r with machine := { r.machine with rejected? := none }, outcome := .error (.reentrant event) }
  | none => r

/-- The end of a push: nothing is in progress and nothing is remembered. -/
def release (r : Run σ) : Run σ :=
  { r with machine := { r.machine with pushing := false, rejected? := none } }

end Run

/-- The fixed part of a machine: its chart, its hooks, and whether an observer is installed. -/
structure MachineSetup (σ : Type) where
  chart : Chart
  hooks : Hooks σ
  observer : Bool := false

namespace MachineSetup

variable {σ : Type}

/-- The id of the current state. -/
def currentName? (s : MachineSetup σ) (m : Machine σ) : Option String :=
  m.current?.bind fun position => s.chart.states[position]?.map (·.id)

/-- What can be seen of a machine. -/
def view (s : MachineSetup σ) (m : Machine σ) : MachineView where
  state? := s.currentName? m
  terminal := (s.currentName? m).any s.chart.isTerminal
  lifecycle := m.lifecycle

/-- The entry for a notification; there is none unless the chart is to be debugged and an observer is
installed. -/
def notify (s : MachineSetup σ) (notification : Notification) : List TraceEntry :=
  if s.chart.debug && s.observer then [.debug notification] else []

section Calls

variable (s : MachineSetup σ) (perform : Request → Machine σ → Run σ)

/-- Runs the program of a hook; `perform` answers the calls that it makes. -/
def runScript : Machine σ → Script σ → Run σ
  | m, .finish memory outcome => .answer { m with memory } outcome
  | m, .call memory request next =>
    let inner := perform request { m with memory }
    (runScript inner.machine (next inner.machine.memory inner.outcome (s.view inner.machine))).after
      (inner.trace ++ [.inner request inner.outcome])

/-- Calls a hook. -/
def callHook (call : HookCall) (m : Machine σ) : Run σ :=
  (s.runScript perform m (s.hooks.respond m.memory (s.view m) call)).after [.hook call (s.view m)]

/-- Performs an action of a transition. -/
def performAction (action : String) (m : Machine σ) : Run σ :=
  (s.callHook perform (.action action) m).settle.after (s.notify (.action action))

/-- Performs the actions of a transition, in order, up to the first that fails. -/
def performActions : List String → Machine σ → Run σ
  | [], m => .answer m (.ok ())
  | action :: rest, m => (s.performAction perform action m).andThen (performActions rest)

/-- Enters the target of a transition. -/
def enter (target : String) (m : Machine σ) : Run σ :=
  (s.callHook perform (.stateChange target)
    { m with current? := s.chart.position? target }).settle.after (s.notify (.state target))

/-- Takes a transition for an event. -/
def take (event : String) (t : Transition) (m : Machine σ) : Run σ :=
  ((s.performActions perform t.actions m).andThen (s.enter perform t.target)).after
    (s.notify (.event event))

/-- Handles an event in the current state. -/
def dispatch (event : String) (m : Machine σ) : Run σ :=
  if event ∉ s.chart.events then .answer m (.error (.unknownEvent event))
  else
    match s.currentName? m with
    | none => .answer m (.error .notStarted)
    | some state =>
      match s.chart.resolve state event with
      | none => .answer m (.error (.unhandled event state))
      | some t => s.take perform event t m

/-- Carries out a call that is not refused. -/
def accept : Request → Machine σ → Run σ
  | .start, m =>
    s.callHook perform (.stateChange s.chart.initial)
      { m with lifecycle := .started, current? := s.chart.position? s.chart.initial }
  | .push event, m => (s.dispatch perform event { m with pushing := true }).release

end Calls

/-- The answer to a call that is refused before anything is done: start on a started machine, push on
one that is not started, and push while a push is in progress. -/
def refuse? : Request → Machine σ → Option (Run σ)
  | .start, m =>
    match m.lifecycle with
    | .started => some (.answer m (.error .alreadyStarted))
    | .notStarted => none
  | .push event, m =>
    match m.lifecycle with
    | .notStarted => some (.answer m (.error .notStarted))
    | .started =>
      if m.pushing then
        some (.answer { m with rejected? := m.rejected?.or (some event) }
          (.error (.reentrant event)))
      else none

/-- Answers a call, with at most `depth` levels of calls that are not refused. -/
def performWithin (s : MachineSetup σ) : Nat → Request → Machine σ → Run σ
  | 0, request, m => (refuse? request m).getD (.answer m (.ok ()))
  | depth + 1, request, m =>
    match refuse? request m with
    | some refused => refused
    | none => s.accept (s.performWithin depth) request m

/-- Answers a call. -/
def perform (s : MachineSetup σ) (request : Request) (m : Machine σ) : Run σ :=
  s.performWithin 2 request m

end MachineSetup

end Statechart
