import Statechart.Machine.Error
set_option autoImplicit false

/-!
# Machines: hooks

A machine calls a hook for every action and for every state it enters.  A hook is an arbitrary
program: it sees the machine, keeps a memory of its own between calls, may call the machine back any
number of times, looks at the outcome of each call, and ends by succeeding or failing.  `Script` is
such a program as a tree of its calls.
-/

namespace Statechart

/-- A call that a machine accepts. -/
inductive Request where
  /-- enter the initial state -/
  | start
  /-- handle an event -/
  | push (event : String)
  deriving DecidableEq, Repr, Inhabited

/-- How a call ends. -/
abbrev Outcome : Type := Except MachineError Unit

/-- A call of a hook. -/
inductive HookCall where
  /-- an action is to be performed -/
  | action (name : String)
  /-- a state has been entered -/
  | stateChange (id : String)
  deriving DecidableEq, Repr, Inhabited

/-- Whether a machine may still be started. -/
inductive Lifecycle where
  | notStarted
  | started
  deriving DecidableEq, Repr, Inhabited

/-- What can be seen of a machine: its current state, whether that state is terminal, and whether the
machine has been started. -/
structure MachineView where
  state? : Option String
  terminal : Bool
  lifecycle : Lifecycle
  deriving DecidableEq, Repr, Inhabited

/-- What a hook does when it is called, `σ` being the hooks' memory.  The memory is handed over at
every call to the machine, because that call may lead to other hook calls. -/
inductive Script (σ : Type) where
  /-- return -/
  | finish (memory : σ) (outcome : Outcome)
  /-- call the machine, then go on with the memory, outcome and machine found after the call -/
  | call (memory : σ) (request : Request) (next : σ → Outcome → MachineView → Script σ)

/-- The behaviour of all hooks of a machine. -/
structure Hooks (σ : Type) where
  respond : σ → MachineView → HookCall → Script σ

/-- What the observer of a machine is told as a transition runs. -/
inductive Notification where
  | event (name : String)
  | action (name : String)
  | state (id : String)
  deriving DecidableEq, Repr, Inhabited

/-- Something that happened during a call, in the order of happening. -/
inductive TraceEntry where
  /-- a hook was called and found the machine like this -/
  | hook (call : HookCall) (view : MachineView)
  /-- a call made by a hook came back -/
  | inner (request : Request) (outcome : Outcome)
  /-- the observer was told something -/
  | debug (notification : Notification)

end Statechart
