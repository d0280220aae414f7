import Statechart.Chart.Violation
import Statechart.File.Fault
import Statechart.Machine.Error
import Statechart.Settings.Fault
import Statechart.Source.Names
set_option autoImplicit false

/-!
# Errors

Why an operation on a chart fails.
-/

namespace Statechart

/-- Why an operation fails. -/
inductive Error where
  /-- a file cannot be read -/
  | file (cause : FileFault)
  /-- a text is refused as a chart -/
  | parse (cause : Rejection)
  /-- a machine refuses a call -/
  | state (cause : MachineError)
  /-- a chart cannot be expressed as source -/
  | generate (cause : Source.NameFault)
  /-- settings are refused -/
  | settings (cause : SettingsFault)
  deriving DecidableEq, Repr, Inhabited

/-- The report of an error. -/
def Error.message : Error → String
  | .file cause => "IO error: " ++ cause.message
  | .parse cause => "Parse error: " ++ cause.message
  | .state cause => "State error: " ++ cause.message
  | .generate cause => "Code generation error: " ++ cause.message
  | .settings cause => "Configuration error: " ++ cause.message

/-- What lies behind an error, where that is an error of its own. -/
def Error.cause? : Error → Option String
  | .file cause => some cause.message
  | .state cause => some cause.message
  | _ => none

end Statechart
