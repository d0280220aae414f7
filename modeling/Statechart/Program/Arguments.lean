import Statechart.Program.Invocation
set_option autoImplicit false

/-!
# Command lines

Reads the words of a command line.  Options may stand before the command and after it; those before it
are the settings file, help and the version.  An argument is taken up when it is read and checked when
the next one is taken up, or when the words end: until then it is pending, and a word that is refused
on sight wins over it.
-/

namespace Statechart

namespace Arguments

/-- Where a word stands: before the command, or after it. -/
inductive Level where
  | front
  | after (kind : CommandKind)
  deriving DecidableEq, Repr, Inhabited

/-- Options with a value. -/
inductive ValueOption where
  | settings
  | className
  | format
  deriving DecidableEq, Repr, Inhabited

/-- Options. -/
inductive CliOption where
  | help
  | version
  | valued (which : ValueOption)
  deriving DecidableEq, Repr, Inhabited

/-- The option with a long name. -/
def Level.long? (level : Level) (name : String) : Option CliOption :=
  if name = "config" then some (.valued .settings)
  else if name = "help" then some .help
  else if name = "version" ∧ level = .front then some .version
  else if name = "class-name" ∧ level = .after .generate then some (.valued .className)
  else if name = "output" ∧ level = .after .check then some (.valued .format)
  else none

/-- The option with a letter. -/
def Level.short? (level : Level) (letter : Char) : Option CliOption :=
  if letter = 'c' then some (.valued .settings)
  else if letter = 'h' then some .help
  else if letter = 'V' ∧ level = .front then some .version
  else if letter = 'o' ∧ level = .after .check then some (.valued .format)
  else none

/-- Values that have been checked. -/
structure Values where
  settings? : Option String := none
  className? : Option String := none
  format? : Option ReportFormat := none
  input? : Option String := none
  events : List String := []
  deriving DecidableEq, Repr, Inhabited

/-- An argument that has been taken up but not checked. -/
inductive Pending where
  | nothing
  /-- an option whose value may still be missing -/
  | option (which : ValueOption) (value? : Option String)
  | input (path : String)
  deriving DecidableEq, Repr, Inhabited

/-- The reading of the words of one level. -/
structure Reading where
  values : Values := {}
  pending : Pending := .nothing
  /-- set after the mark that ends the options -/
  pastOptions : Bool := false
  deriving DecidableEq, Repr, Inhabited

/-- A path, which must not be empty. -/
def checkPath (path : String) : Except UsageFault String :=
  if path.isEmpty then .error .invalidValue else .ok path

/-- Stores the value of an option; no option is given twice. -/
def Values.store (values : Values) (value : String) : ValueOption → Except UsageFault Values
  | .settings =>
    if values.settings?.isSome then .error .repeatedOption
    else do pure { values with settings? := some (← checkPath value) }
  | .className =>
    if values.className?.isSome then .error .repeatedOption
    else .ok { values with className? := some value }
  | .format =>
    if values.format?.isSome then .error .repeatedOption
    else
      match ReportFormat.ofWord? value with
      | some format => .ok { values with format? := some format }
      | none => .error .invalidValue

namespace Reading

/-- Checks the pending argument. -/
def settle (r : Reading) : Except UsageFault Reading :=
  match r.pending with
  | .nothing => .ok r
  | .option _ none => .error .invalidValue
  | .option which (some value) => do
    pure { r with values := ← r.values.store value which, pending := .nothing }
  | .input path => do
    pure { r with values.input? := some (← checkPath path), pending := .nothing }

/-- Whether an option waits for its value. -/
def isWaiting (r : Reading) : Bool :=
  match r.pending with
  | .option _ none => true
  | _ => false

/-- Whether the input file has been named. -/
def hasInput (r : Reading) : Bool :=
  r.values.input?.isSome ||
    match r.pending with
    | .input _ => true
    | _ => false

/-- Takes up an option, with the value attached to it if there is one. -/
def takeOption (r : Reading) (attached? : Option String) : CliOption → Except UsageFault Reading
  | .help => do
    let _ ← r.settle
    .error .help
  | .version => do
    let _ ← r.settle
    .error .version
  | .valued which => do
    let r ← r.settle
    match attached? with
    | some value => pure { r with values := ← r.values.store value which }
    | none => pure { r with pending := .option which none }

/-- Takes up a word after two dashes: a name, and possibly a value after an equals sign. -/
def takeLong (level : Level) (r : Reading) (body : List Char) : Except UsageFault Reading :=
  let name := String.ofList (body.takeWhile (· ≠ '='))
  let attached? :=
    match body.dropWhile (· ≠ '=') with
    | _ :: value => some (String.ofList value)
    | [] => none
  match level.long? name with
  | none => .error .unknownArgument
  | some (.valued which) => r.takeOption attached? (.valued which)
  | some option =>
    if attached?.isSome then .error .unneededValue else r.takeOption none option

/-- Takes up a word after one dash: a letter, and possibly a value right after it or after an equals
sign. -/
def takeShort (level : Level) (r : Reading) (letter : Char) (rest : List Char) :
    Except UsageFault Reading :=
  let attached? :=
    match rest with
    | [] => none
    | '=' :: value => some (String.ofList value)
    | value => some (String.ofList value)
  match level.short? letter with
  | none => .error .unknownArgument
  | some option => r.takeOption attached? option

/-- Takes up a word that is neither an option nor the value of one. -/
def takePlain (level : Level) (r : Reading) (word : String) : Except UsageFault Reading :=
  match level with
  | .front =>
    if r.pastOptions ∧ isCommandWord word then .error .unknownArgument
    else .error .unknownCommand
  | .after kind =>
    if !r.hasInput then do
      let r ← r.settle
      pure { r with pending := .input word }
    else if kind = .run then do
      let r ← r.settle
      pure { r with values.events := r.values.events ++ [word] }
    else .error .unknownArgument

/-- Takes up a word. -/
def take (level : Level) (r : Reading) (word : String) : Except UsageFault Reading :=
  if r.pastOptions then r.takePlain level word
  else
    match word.toList with
    | ['-', '-'] => .ok { r with pastOptions := true }
    | '-' :: '-' :: body => r.takeLong level body
    | '-' :: letter :: rest => r.takeShort level letter rest
    | _ =>
      match r.pending with
      | .option which none => .ok { r with pending := .option which (some word) }
      | _ => r.takePlain level word

/-- Ends the reading of a level.  The settings file of the environment is looked at where none is
named, and has to be acceptable even if another level names one. -/
def close (default? : Option String) (r : Reading) : Except UsageFault Values := do
  let r ← r.settle
  match r.values.settings?, default? with
  | none, some path => do
    let _ ← checkPath path
    pure r.values
  | _, _ => pure r.values

end Reading

/-- The words before the command, the command, and the words after it. -/
structure Split where
  front : Reading
  command? : Option (CommandKind × List String)
  deriving DecidableEq, Repr, Inhabited

/-- What comes of asking for help on the commands that words name; no command has commands of its
own. -/
def helpOn : List String → UsageFault
  | [] => .help
  | [word] => if isCommandWord word then .help else .unknownCommand
  | _ => .unknownCommand

/-- Reads words up to the command. -/
def split (r : Reading) : List String → Except UsageFault Split
  | [] => .ok ⟨r, none⟩
  | word :: words =>
    if r.pastOptions || r.isWaiting then do split (← r.take .front word) words
    else if word = helpWord then .error (helpOn words)
    else
      match CommandKind.ofWord? word with
      | some kind => .ok ⟨r, some (kind, words)⟩
      | none => do split (← r.take .front word) words

/-- The command that checked values make up. -/
def command (values : Values) : CommandKind → Command
  | .draw => .draw
  | .generate => .generate values.className?
  | .check => .check (values.format?.getD .table)
  | .run => .run values.events

/-- Reads a command line, `default?` being the settings file that the environment names.  The settings
file named last counts. -/
def read (default? : Option String) (words : List String) : Except UsageFault Invocation := do
  let ⟨front, command?⟩ ← split {} words
  match command? with
  | none =>
    let values ← front.close default?
    if values.settings?.isNone ∧ default?.isNone then .error .nothingAsked
    else .error .missingCommand
  | some (kind, words) =>
    let reading ← words.foldlM (Reading.take (.after kind)) {}
    let values ← reading.close default?
    match values.input? with
    | none => .error .missingInput
    | some input =>
      let frontValues ← front.close default?
      pure ⟨values.settings? <|> frontValues.settings? <|> default?, input, command values kind⟩

end Arguments

end Statechart
