import Statechart.Chart.OfElement
import Statechart.Command.Summary
import Statechart.Command.Trace
import Statechart.Settings.Basic
import Statechart.Source.Module
set_option autoImplicit false

/-!
# Carrying out commands

A command reads its chart first, and writes nothing if there is none.
-/

namespace Statechart

/-- The chart in a file, given what reading the file gave. -/
def Chart.ofFile : Except FileFault String → Except Error Chart
  | .error fault => .error (.file fault)
  | .ok text =>
    match Chart.ofText text with
    | .error rejection => .error (.parse rejection)
    | .ok chart => .ok chart

namespace Command

/-- Carries out a command on a chart. -/
def executeOn (settings : Settings) (chart : Chart) : Command → CommandResult
  | .draw =>
    match chart.dot? settings.graph with
    | some drawing => .success drawing
    | none => .failure .lineTooWide
  | .generate className? =>
    match Source.generate ((className?.map chart.rename).getD chart) settings.source with
    | .ok source => .success source
    | .error fault => .failure (.error (.generate fault))
  | .check format => .success (chart.summary format)
  | .run events =>
    let (lines, cause?) := chart.trace events
    ⟨linesText lines, cause?.map fun cause => .error (.state cause)⟩

/-- Carries out a command on a file, given what reading the file gave. -/
def execute (settings : Settings) (content : Except FileFault String) (command : Command) :
    CommandResult :=
  match Chart.ofFile content with
  | .error cause => .failure (.error cause)
  | .ok chart => command.executeOn settings chart

end Command

end Statechart
