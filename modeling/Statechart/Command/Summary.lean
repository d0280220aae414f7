import Statechart.Command.Basic
import Statechart.Decimal.Shortest
import Statechart.Graph.Pattern
import Statechart.Json.Printer
set_option autoImplicit false

/-!
# Summaries

A summary of a chart, as a table for readers and as JSON for programs.
-/

namespace Statechart

namespace Chart

/-! ## Table -/

/-- The width of the rules in a table. -/
def ruleWidth : Nat := 80

/-- A line across the table. -/
def rule (c : Char) : String :=
  String.ofList (List.replicate ruleWidth c)

/-- A row of the table of transitions. -/
def tableRow (source event target actions : String) : String :=
  padded 20 source ++ " " ++ padded 20 event ++ " " ++ padded 20 target ++ " " ++ padded 17 actions

/-- The rows of a state: one for each transition, or one that says that there is none. -/
def stateRows (s : State) : List String :=
  (if s.isTerminal then [tableRow s.id "-" "(terminal)" ""] else [])
    ++ s.transitions.map fun t =>
      tableRow s.id t.event t.target (String.intercalate ", " t.actions)

/-- The section on states that no run enters, if there are any. -/
def unreachableLines (ids : List String) : List String :=
  if ids.isEmpty then []
  else ["Unreachable States:"] ++ ids.map ("  - " ++ ·) ++ [""]

/-- The word for a truth value. -/
def truthWord (b : Bool) : String :=
  if b then "true" else "false"

/-- The lines of a summary as a table. -/
def summaryLines (c : Chart) : List String :=
  let g := Graph.ofChart c
  ["State Machine - " ++ c.qualifiedName,
    rule '=',
    "",
    "Summary:",
    "  Initial State:     " ++ c.initial,
    "  Base State:        " ++ (c.baseState?.map (·.id)).getD "-",
    "  Debug:             " ++ truthWord c.debug,
    "  Total States:      " ++ toString g.stats.states,
    "  Total Transitions: " ++ toString g.stats.transitions,
    "  Events:            " ++ toString c.events.length,
    "  Actions:           " ++ toString c.actions.length,
    "  Pattern:           " ++ g.pattern.name,
    "  Max Depth:         " ++ toString g.maxDepth,
    "",
    "Transitions:",
    rule '-',
    tableRow "From" "Event" "To" "Actions",
    rule '-']
    ++ c.states.flatMap stateRows ++ [""] ++ unreachableLines g.unreachableStates

/-! ## JSON -/

open Statechart.Json

/-- A transition in a summary. -/
def transitionEntry (t : Transition) : Value :=
  .record [("actions", .texts t.actions), ("event", .text t.event), ("target", .text t.target)]

/-- A state in a summary. -/
def stateEntry (s : State) : Value :=
  .record [("id", .text s.id), ("transitions", .array (s.transitions.map transitionEntry))]

/-- A summary as a JSON value, its members in alphabetical order. -/
def summaryValue (c : Chart) : Value :=
  let g := Graph.ofChart c
  let stats := g.stats
  .record [
    ("actions", .texts c.actions),
    ("analysis", .record [
      ("branching_factor",
        .number (Decimal.ofQuotient stats.transitions stats.states).text.toList),
      ("has_cycles", .bool g.hasCycles),
      ("max_depth", .count g.maxDepth),
      ("pattern", .text g.pattern.name)]),
    ("events", .texts c.events),
    ("machine", .record [
      ("base_state", .text? (c.baseState?.map (·.id))),
      ("class", .text c.className),
      ("debug", .bool c.debug),
      ("initial_state", .text c.initial),
      ("name", .text c.qualifiedName),
      ("package", .text? c.package?)]),
    ("states", .array (c.states.map stateEntry)),
    ("summary", .record [
      ("fallback_transitions", .count stats.fallbackTransitions),
      ("terminal_states", .count stats.terminalStates),
      ("total_states", .count stats.states),
      ("total_transitions", .count stats.transitions)]),
    ("terminal_states", .texts (c.terminalStates.map (·.id))),
    ("unreachable_states", .texts g.unreachableStates)]

/-- The text of a summary. -/
def summary (c : Chart) : ReportFormat → String
  | .table => linesText c.summaryLines
  | .json => String.ofList (c.summaryValue.laidOut 0) ++ "\n"

end Chart

end Statechart
