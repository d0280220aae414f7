import Statechart.Chart.Basic
import Statechart.Chart.Builder
import Statechart.Chart.Codec
import Statechart.Chart.OfElement
import Statechart.Chart.Violation
import Statechart.Chart.Vocabulary
import Statechart.Command.Basic
import Statechart.Command.Execute
import Statechart.Command.Summary
import Statechart.Command.Trace
import Statechart.Decimal.Binary
import Statechart.Decimal.Shortest
import Statechart.Error
import Statechart.File.Access
import Statechart.File.Fault
import Statechart.File.Workspace
import Statechart.Graph.Basic
import Statechart.Graph.Dot
import Statechart.Graph.Layers
import Statechart.Graph.Pattern
import Statechart.Graph.Queue
import Statechart.Json.Basic
import Statechart.Json.Printer
import Statechart.Json.Reader
import Statechart.Machine.Basic
import Statechart.Machine.Error
import Statechart.Machine.Fleet
import Statechart.Machine.Recorder
import Statechart.Machine.Rule
import Statechart.Machine.Script
import Statechart.Main
import Statechart.Markup.Document
import Statechart.Markup.Element
import Statechart.Markup.Entity
import Statechart.Markup.Fault
import Statechart.Markup.Piece
import Statechart.Markup.Tag
import Statechart.Program.Arguments
import Statechart.Program.Invocation
import Statechart.Program.Run
import Statechart.Proofs.Chart.Building
import Statechart.Proofs.Chart.Depiction
import Statechart.Proofs.Chart.Document
import Statechart.Proofs.Chart.Rules
import Statechart.Proofs.Graph.Closure
import Statechart.Proofs.Graph.Cycles
import Statechart.Proofs.Graph.Distance
import Statechart.Proofs.Graph.Patterns
import Statechart.Proofs.Graph.Queue
import Statechart.Proofs.Graph.Reachability
import Statechart.Proofs.Graph.Representation
import Statechart.Proofs.Machine.Calls
import Statechart.Proofs.Machine.Confinement
import Statechart.Proofs.Machine.Debugging
import Statechart.Proofs.Machine.Descent
import Statechart.Proofs.Machine.Execution
import Statechart.Proofs.Machine.Independence
import Statechart.Proofs.Machine.Lifetime
import Statechart.Proofs.Machine.Moment
import Statechart.Proofs.Machine.Refusals
import Statechart.Proofs.Machine.SingleFlight
import Statechart.Proofs.Machine.Steps
import Statechart.Proofs.Machine.Transition
import Statechart.Proofs.Source.Arms
import Statechart.Proofs.Source.Dispatch
import Statechart.Proofs.Source.Emission
import Statechart.Proofs.Source.Excerpts
import Statechart.Proofs.Source.Faults
import Statechart.Proofs.Source.Names
import Statechart.Proofs.Source.Reading
import Statechart.Proofs.Text.Lines
import Statechart.Settings.Basic
import Statechart.Settings.Fault
import Statechart.Settings.Load
import Statechart.Settings.OfToml
import Statechart.Source.Code
import Statechart.Source.Declarations
import Statechart.Source.Dispatch
import Statechart.Source.Emission
import Statechart.Source.Emitter
import Statechart.Source.Identifier
import Statechart.Source.Module
import Statechart.Source.Names
import Statechart.Source.SnakeCase
import Statechart.Text.Bytes
import Statechart.Text.Cut
import Statechart.Text.Digit
import Statechart.Text.Ordered
import Statechart.Text.Printable
import Statechart.Text.Quoted
import Statechart.Toml.Basic
import Statechart.Toml.Document
import Statechart.Toml.Moment
import Statechart.Toml.Number
import Statechart.Toml.Path
import Statechart.Toml.Quoted
import Statechart.Proofs.Machine.Attainment
import Statechart.Proofs.Command.Failure
import Statechart.Proofs.Command.Report
import Statechart.Proofs.Source.Outline
import Statechart.Proofs.Source.Scopes
import Statechart.Proofs.Source.Clashes
import Statechart.Proofs.Source.Wording
import Statechart.Proofs.Source.Banner
import Statechart.Proofs.Markup.RoundTrip
import Statechart.Proofs.Source.References
import Statechart.Proofs.Source.Mirror
import Statechart.Proofs.Graph.Drawing
import Statechart.Proofs.Machine.Terminal
import Statechart.Proofs.Markup.Listing
import Statechart.Proofs.Graph.Labels
import Statechart.Proofs.Chart.Offenders
import Statechart.Proofs.Json.RoundTrip
import Statechart.Proofs.Chart.Codec
import Statechart.Proofs.Source.Nesting
import Statechart.Proofs.Source.Marks
import Statechart.Proofs.Source.Erasure
import Statechart.Proofs.Source.Logging
import Statechart.Proofs.Source.SnakeCase
import Statechart.Proofs.Text.Brackets
import Statechart.Proofs.Source.Writer
import Statechart.Proofs.Source.Braces
