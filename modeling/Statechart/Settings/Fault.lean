import Statechart.File.Fault
import Statechart.Text.Quoted
set_option autoImplicit false

/-!
# Settings faults

Why settings cannot be loaded or put into effect.
-/

namespace Statechart

/-- Why settings are refused. -/
inductive SettingsFault where
  /-- the settings file cannot be read -/
  | unreadable (path : String) (cause : FileFault)
  /-- the settings file does not hold settings -/
  | malformed (path : String)
  /-- the log file cannot be opened -/
  | logFile (path : String) (cause : FileFault)
  deriving DecidableEq, Repr, Inhabited

/-- The wording of a settings fault. -/
def SettingsFault.message : SettingsFault → String
  | .unreadable path cause =>
    "Failed to read config file " ++ Text.quoted path ++ ": " ++ cause.message
  | .malformed path => "Failed to parse config file " ++ Text.quoted path
  | .logFile path cause => "Failed to open log file " ++ Text.quoted path ++ ": " ++ cause.message

end Statechart
