import Statechart.Settings.Fault
import Statechart.Settings.OfToml
set_option autoImplicit false

/-!
# Loading settings

Settings from the content of a settings file.
-/

namespace Statechart

/-- The settings in the file at `path`, given what reading it gave. -/
def Settings.ofFile (path : String) : Except FileFault String → Except SettingsFault Settings
  | .error fault => .error (.unreadable path fault)
  | .ok text =>
    match Settings.ofText? text with
    | some settings => .ok settings
    | none => .error (.malformed path)

end Statechart
