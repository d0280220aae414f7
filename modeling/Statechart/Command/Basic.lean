import Statechart.Error
set_option autoImplicit false

/-!
# Commands

What can be done with a chart in a file, and what comes of it.
-/

namespace Statechart

/-- How a summary of a chart is written. -/
inductive ReportFormat where
  | json
  | table
  deriving DecidableEq, Repr, Inhabited

/-- What is done with a chart. -/
inductive Command where
  /-- draw it -/
  | draw
  /-- write a module that implements it, possibly under another class name -/
  | generate (className? : Option String)
  /-- summarise it -/
  | check (format : ReportFormat)
  /-- start a machine and push events through it -/
  | run (events : List String)
  deriving DecidableEq, Repr, Inhabited

/-- Why a command ends early. -/
inductive Failure where
  | error (cause : Error)
  /-- the drawing's indentation is wider than a line can be -/
  | lineTooWide
  deriving DecidableEq, Repr, Inhabited

/-- What comes of a command: all that it wrote, and why it ended early if it did. -/
structure CommandResult where
  output : String
  failure? : Option Failure
  deriving DecidableEq, Repr, Inhabited

namespace CommandResult

/-- A command that wrote its output. -/
def success (output : String) : CommandResult :=
  ⟨output, none⟩

/-- A command that wrote nothing. -/
def failure (cause : Failure) : CommandResult :=
  ⟨"", some cause⟩

end CommandResult

/-- The text of complete lines. -/
def linesText (lines : List String) : String :=
  String.join (lines.map (· ++ "\n"))

/-- A text filled up with blanks to a width, if it is shorter. -/
def padded (width : Nat) (text : String) : String :=
  text ++ String.ofList (List.replicate (width - text.length) ' ')

end Statechart
