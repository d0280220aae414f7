import Statechart.Command.Basic
set_option autoImplicit false

/-!
# Invocations

What a command line asks for, and why a command line is refused.
-/

namespace Statechart

/-- What a command line asks for: a command on an input file, possibly with a settings file. -/
structure Invocation where
  settingsPath? : Option String
  input : String
  command : Command
  deriving DecidableEq, Repr, Inhabited

/-- Why a command line is not carried out. -/
inductive UsageFault where
  /-- help is asked for -/
  | help
  /-- the version is asked for -/
  | version
  /-- there is nothing but, at most, the mark that ends the options -/
  | nothingAsked
  /-- there are options but no command -/
  | missingCommand
  /-- a word that has to be a command is none -/
  | unknownCommand
  /-- an option is unknown, or there is a word too many -/
  | unknownArgument
  /-- the input file is not named -/
  | missingInput
  /-- an option lacks its value, or a value is not accepted -/
  | invalidValue
  /-- an option that takes no value has one -/
  | unneededValue
  /-- an option is given twice -/
  | repeatedOption
  deriving DecidableEq, Repr, Inhabited

/-- The exit code of a command line that is not carried out. -/
def UsageFault.exitCode : UsageFault → Nat
  | .help => 0
  | .version => 0
  | _ => 2

/-- The commands, without what each of them takes. -/
inductive CommandKind where
  | draw
  | generate
  | check
  | run
  deriving DecidableEq, Repr, Inhabited

/-- The word for a command. -/
def CommandKind.word : CommandKind → String
  | .draw => "dot"
  | .generate => "rust"
  | .check => "check"
  | .run => "run"

/-- All commands. -/
def CommandKind.all : List CommandKind :=
  [.draw, .generate, .check, .run]

/-- The command that a word stands for. -/
def CommandKind.ofWord? (word : String) : Option CommandKind :=
  CommandKind.all.find? (·.word = word)

/-- The word that asks for help on a command. -/
def helpWord : String := "help"

/-- Whether a word stands for a command or asks for help on one. -/
def isCommandWord (word : String) : Bool :=
  (CommandKind.ofWord? word).isSome || word = helpWord

/-- The format that a word stands for. -/
def ReportFormat.ofWord? (word : String) : Option ReportFormat :=
  if word = "json" then some .json
  else if word = "table" then some .table
  else none

end Statechart
