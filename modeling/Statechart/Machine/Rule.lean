import Statechart.Machine.Basic
set_option autoImplicit false

/-!
# Machines: hooks from rules

Hooks whose behaviour is written down as rules.  A rule is for one kind of hook call, possibly for
one name; it lets the first calls pass, then fires a number of times.  What it does when it fires is
a row of commands.  The memory of such hooks is one counter per rule.
-/

namespace Statechart

/-- The two kinds of hook calls. -/
inductive HookKind where
  | action
  | stateChange
  deriving DecidableEq, Repr, Inhabited

/-- The kind of a hook call. -/
def HookCall.kind : HookCall → HookKind
  | .action _ => .action
  | .stateChange _ => .stateChange

/-- The action or state of a hook call. -/
def HookCall.name : HookCall → String
  | .action name => name
  | .stateChange id => id

/-- One thing that a hook does. -/
inductive HookCommand where
  /-- return a failure -/
  | fail (text : String)
  /-- call the machine; a failure of the call is returned unless it is to be swallowed -/
  | call (request : Request) (swallow : Bool)
  deriving DecidableEq, Repr, Inhabited

/-- A rule of behaviour; without a limit it fires at every call after the skipped ones. -/
structure HookRule where
  kind : HookKind
  name? : Option String := none
  skip : Nat := 0
  limit? : Option Nat := none
  commands : List HookCommand
  deriving DecidableEq, Repr, Inhabited

namespace HookRule

/-- Whether the rule is for a hook call. -/
def covers (r : HookRule) (call : HookCall) : Bool :=
  r.kind = call.kind && r.name?.all (· = call.name)

/-- Whether the rule fires at the call that it counts as number `count`. -/
def fires (r : HookRule) (count : Nat) : Bool :=
  r.skip ≤ count && r.limit?.all (count < r.skip + ·)

end HookRule

/-- The commands of the first rule that fires at a call, and the counters after it.  Rules after the
one that fires do not count the call. -/
def selectRule (call : HookCall) : List (HookRule × Nat) → List HookCommand × List Nat
  | [] => ([], [])
  | (rule, count) :: rest =>
    if rule.covers call then
      if rule.fires count then (rule.commands, (count + 1) :: rest.map (·.2))
      else
        let (commands, counts) := selectRule call rest
        (commands, (count + 1) :: counts)
    else
      let (commands, counts) := selectRule call rest
      (commands, count :: counts)

/-- The program of a row of commands. -/
def commandScript (memory : List Nat) : List HookCommand → Script (List Nat)
  | [] => .finish memory (.ok ())
  | .fail text :: _ => .finish memory (.error (.hook text))
  | .call request swallow :: rest =>
    .call memory request fun memory outcome _ =>
      match outcome with
      | .ok () => commandScript memory rest
      | .error e => if swallow then commandScript memory rest else .finish memory (.error e)

/-- Hooks that follow rules. -/
def Hooks.ofRules (rules : List HookRule) : Hooks (List Nat) where
  respond counts _ call :=
    let (commands, counts) := selectRule call (rules.zip counts)
    commandScript counts commands

/-- A machine whose hooks follow rules, before any call. -/
def Machine.ofRules (rules : List HookRule) : Machine (List Nat) where
  memory := rules.map fun _ => 0

end Statechart
