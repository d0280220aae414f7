import Statechart.Command.Execute
import Statechart.File.Access
import Statechart.Program.Arguments
import Statechart.Settings.Load
set_option autoImplicit false

/-!
# The program

From a command line to what is printed: the settings are loaded first, then the log file is opened, and
then the command is carried out.
-/

namespace Statechart

/-- What the program prints, and its exit code. -/
structure ProgramResult where
  exitCode : Nat
  output : String
  diagnostics : String
  deriving DecidableEq, Repr, Inhabited

/-- What the program finds in its environment. -/
structure Surroundings where
  /-- the settings file that a variable names -/
  settingsPath? : Option String
  /-- the home directory of the user -/
  home? : Option String
  deriving DecidableEq, Repr, Inhabited

namespace Program

/-- The name and version of the program. -/
def versionLine : String := "scxml-fsm 0.1.0\n"

/-- How to use the program. -/
def usage : String :=
  linesText ["Usage: scxml-fsm [-c CONFIG] <dot|rust|check|run> ...",
    "  dot INPUT", "  rust INPUT [--class-name NAME]", "  check INPUT [-o json|table]",
    "  run INPUT [EVENT]..."]

/-- The exit code of a command that failed. -/
def failureCode : Nat := 1

/-- The exit code of a command that could not go on. -/
def abortCode : Nat := 101

/-! ## Diagnostics -/

/-- A text whose lines are all moved in by four columns. -/
def movedIn (text : String) : String :=
  String.ofList ([' ', ' ', ' ', ' '] ++ text.toList.flatMap fun c =>
    if c = '\n' then ['\n', ' ', ' ', ' ', ' '] else [c])

/-- The diagnostics for an error, with what lies behind it. -/
def diagnostics (message : String) (cause? : Option String) : String :=
  "Error: " ++ message
    ++ (match cause? with
      | some cause => "\n\nCaused by:\n" ++ movedIn cause
      | none => "")
    ++ "\n"

/-- The result of a program that ends before its command. -/
def refused (message : String) (cause? : Option String) : ProgramResult :=
  ⟨failureCode, "", diagnostics message cause?⟩

/-- The result of a command line that is not carried out. -/
def ofUsageFault (fault : UsageFault) : ProgramResult :=
  match fault with
  | .help => ⟨fault.exitCode, usage, ""⟩
  | .version => ⟨fault.exitCode, versionLine, ""⟩
  | _ => ⟨fault.exitCode, "", usage⟩

/-- The result of a command. -/
def ofCommandResult (result : CommandResult) : ProgramResult :=
  match result.failure? with
  | none => ⟨0, result.output, ""⟩
  | some (.error cause) => ⟨failureCode, result.output, diagnostics cause.message cause.cause?⟩
  | some .lineTooWide => ⟨abortCode, result.output, "indentation too wide\n"⟩

/-! ## Settings -/

/-- A path below a directory. -/
def below (directory name : String) : String :=
  if directory.endsWith "/" then directory ++ name else directory ++ "/" ++ name

/-- Where settings are looked for if no file is named, in order. -/
def settingsPaths (surroundings : Surroundings) : List String :=
  ["scxml-fsm.toml"]
    ++ (surroundings.home?.map fun home => below (below home ".scxml-fsm") "config.toml").toList
    ++ ["/etc/scxml-fsm/config.toml"]

variable {m : Type → Type} [Monad m]

/-- Loads the settings from the first of the paths that leads to anything. -/
def searchSettings (files : FileAccess m) : List String → m (Except SettingsFault Settings)
  | [] => pure (.ok {})
  | path :: paths => do
    if ← files.contains path then pure (Settings.ofFile path (← files.read path))
    else searchSettings files paths

/-- Loads the settings; a failure comes with what was being done. -/
def loadSettings (files : FileAccess m) (surroundings : Surroundings) (named? : Option String) :
    m (Except (String × SettingsFault) Settings) := do
  match named? with
  | some path =>
    let loaded := Settings.ofFile path (← files.read path)
    pure (loaded.mapError ("loading configuration from " ++ Text.quoted path, ·))
  | none =>
    let loaded ← searchSettings files (settingsPaths surroundings)
    pure (loaded.mapError ("loading configuration", ·))

/-- Opens the log file, if there is one. -/
def openLog (files : FileAccess m) (log : LogSettings) : m (Except SettingsFault Unit) := do
  match log.file? with
  | none => pure (.ok ())
  | some path => pure ((← files.openAtEnd path).mapError (.logFile path))

/-! ## The program as a whole -/

/-- Carries out what a command line asks for. -/
def carryOut (files : FileAccess m) (surroundings : Surroundings) (invocation : Invocation) :
    m ProgramResult := do
  match ← loadSettings files surroundings invocation.settingsPath? with
  | .error (doing, fault) => pure (refused doing (some (Error.settings fault).message))
  | .ok settings =>
    match ← openLog files settings.log with
    | .error fault => pure (refused (Error.settings fault).message (Error.settings fault).cause?)
    | .ok () =>
      let content ← files.read invocation.input
      pure (ofCommandResult (invocation.command.execute settings content))

/-- Runs the program on a command line. -/
def run (files : FileAccess m) (surroundings : Surroundings) (words : List String) :
    m ProgramResult :=
  match Arguments.read surroundings.settingsPath? words with
  | .error fault => pure (ofUsageFault fault)
  | .ok invocation => carryOut files surroundings invocation

end Program

end Statechart
