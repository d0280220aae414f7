import Statechart.Graph.Dot
import Statechart.Source.Names
set_option autoImplicit false

/-!
# Settings

What the commands can be told in a settings file.
-/

namespace Statechart

/-- What is logged, and where. -/
structure LogSettings where
  level : String := "warn"
  file? : Option String := none
  deriving DecidableEq, Repr, Inhabited

/-- The settings of all commands. -/
structure Settings where
  log : LogSettings := {}
  graph : GraphStyle := {}
  source : Source.SourceOptions := {}
  deriving DecidableEq, Repr, Inhabited

end Statechart
