import Statechart.Text.Bytes
import Statechart.Toml.Moment
import Statechart.Toml.Number
import Statechart.Toml.Path
import Statechart.Toml.Quoted
set_option autoImplicit false

/-!
# TOML documents: reading

Reads a document line by line.  Each reader takes something off the front of a text and gives the
rest.  `fuel` bounds the number of steps, which a multiple of the text's length does; `depth` bounds
how deep arrays and tables in braces may nest.
-/

namespace Statechart.Toml

open Statechart.Text

/-! ## Blanks -/

/-- The text after the blanks at its front. -/
def skipBlanks (cs : List Char) : List Char :=
  cs.dropWhile isBlank

/-- The text after blanks, line breaks and comments; `inComment` is set after a comment's mark. -/
def skipFiller (inComment : Bool) : List Char → Option (List Char)
  | [] => some []
  | c :: cs =>
    if c = '\n' then skipFiller false cs
    else if c = '\r' then (if cs.head? = some '\n' then skipFiller false cs else none)
    else if inComment then (if isPlain c then skipFiller true cs else none)
    else if isBlank c then skipFiller false cs
    else if c = '#' then skipFiller true cs
    else some (c :: cs)

/-- The text after the end of a line, before which a comment may stand. -/
def afterLine? (cs : List Char) : Option (List Char) :=
  let rest :=
    match skipBlanks cs with
    | '#' :: comment => comment.dropWhile isPlain
    | rest => rest
  if rest.isEmpty then some [] else afterLineBreak? rest

/-! ## Keys -/

/-- Characters of a key without quotes. -/
def isBare (c : Char) : Bool :=
  c.isAlphanum || c = '_' || c = '-'

/-- Reads one part of a key. -/
def readKeyPart : List Char → Option (String × List Char)
  | [] => none
  | c :: cs =>
    if isQuote c then readLineString (c :: cs)
    else if isBare c then
      some (String.ofList (c :: cs.takeWhile isBare), cs.dropWhile isBare)
    else none

/-- The deepest nesting: of arrays and tables in braces, and of the tables that one key names. -/
def nestingLimit : Nat := 80

/-- Reads a key of at least one part and at most `limit` parts, with the parts before the last one
apart from it. -/
def readKeyWithin : Nat → List Char → Option ((List String × String) × List Char)
  | 0, _ => none
  | limit + 1, cs => do
    let (part, rest) ← readKeyPart (skipBlanks cs)
    match skipBlanks rest with
    | '.' :: rest =>
      let ((path, name), rest) ← readKeyWithin limit rest
      some ((part :: path, name), rest)
    | rest => some (([], part), rest)

/-- Reads a key. -/
def readKey (cs : List Char) : Option ((List String × String) × List Char) :=
  readKeyWithin nestingLimit cs

/-! ## Values -/

/-- Characters that end a scalar without quotes. -/
def scalarEnds : List Char :=
  ['=', ',', '[', ']', '\x7b', '\x7d', '#', ' ', '\t', '\r', '\n']

/-- Characters of a scalar without quotes. -/
def isScalarChar (c : Char) : Bool :=
  !scalarEnds.contains c

/-- The scalar that a text without quotes writes. -/
def scalar? (cs : List Char) : Option Scalar :=
  if cs = ['t', 'r', 'u', 'e'] then some (.bool true)
  else if cs = ['f', 'a', 'l', 's', 'e'] then some (.bool false)
  else if isMoment cs then some (.moment (String.ofList cs))
  else
    match integer? cs with
    | some n => some (.integer n)
    | none =>
      if hasIntegerForm cs then some (.looseInteger (String.ofList cs))
      else (decimal? cs).map .decimal

/-- Divides a scalar without quotes from the front of a text.  Blanks belong to it if more of it stands
behind them, which a quote does not; `blanks` have been read already. -/
def splitBare (blanks : List Char) : List Char → List Char × List Char
  | [] => ([], blanks)
  | c :: cs =>
    if isBlank c then splitBare (blanks ++ [c]) cs
    else if isScalarChar c && (blanks.isEmpty || !isQuote c) then
      let (more, rest) := splitBare [] cs
      (blanks ++ c :: more, rest)
    else ([], blanks ++ c :: cs)

/-- Reads a scalar without quotes. -/
def readBare (cs : List Char) : Option (Scalar × List Char) :=
  let (written, rest) := splitBare [] cs
  (scalar? written).map (·, rest)

mutual

/-- Reads a value. -/
def readValue : Nat → Nat → List Char → Option (Node × List Char)
  | 0, _, _ => none
  | fuel + 1, depth, cs =>
    match cs with
    | '[' :: rest =>
      match depth with
      | 0 => none
      | depth + 1 => (readItems fuel depth rest).map fun (items, rest) => (.array items, rest)
    | '\x7b' :: rest =>
      match depth with
      | 0 => none
      | depth + 1 =>
        match skipBlanks rest with
        | '\x7d' :: rest => some (.table .braces [], rest)
        | rest =>
          (readPairs fuel depth [] rest).map fun (entries, rest) => (.table .braces entries, rest)
    | cs =>
      match cs.head?.map isQuote with
      | some true => (readString cs).map fun (text, rest) => (.scalar (.string text), rest)
      | _ => (readBare cs).map fun (value, rest) => (.scalar value, rest)

/-- Reads the items of an array up to its closing bracket. -/
def readItems : Nat → Nat → List Char → Option (List Node × List Char)
  | 0, _, _ => none
  | fuel + 1, depth, cs =>
    match skipFiller false cs with
    | none => none
    | some (']' :: rest) => some ([], rest)
    | some rest =>
      match readValue fuel depth rest with
      | none => none
      | some (item, rest) =>
        match skipFiller false rest with
        | some (',' :: rest) =>
          (readItems fuel depth rest).map fun (items, rest) => (item :: items, rest)
        | some (']' :: rest) => some ([item], rest)
        | _ => none

/-- Reads the entries of a table in braces, of which there is at least one, up to the closing brace,
after `entries`. -/
def readPairs : Nat → Nat → Entries → List Char → Option (Entries × List Char)
  | 0, _, _, _ => none
  | fuel + 1, depth, entries, cs =>
    match readKey cs with
    | some ((path, name), '=' :: rest) =>
      match readValue fuel depth (skipBlanks rest) with
      | none => none
      | some (node, rest) =>
        match alongDotted (addEntry name node) path entries with
        | none => none
        | some entries =>
          match skipBlanks rest with
          | ',' :: rest => readPairs fuel depth entries rest
          | '\x7d' :: rest => some (entries, rest)
          | _ => none
    | _ => none

end

/-! ## Lines -/

/-- A document so far: its entries, and the path of the table that takes the next ones. -/
structure Draft where
  entries : Entries
  header : List String
  deriving Repr, Inhabited

/-- Reads a header or an entry. -/
def readExpression (fuel : Nat) (draft : Draft) : List Char → Option (Draft × List Char)
  | '[' :: '[' :: rest =>
    match readKey rest with
    | some ((path, name), ']' :: ']' :: rest) =>
      (alongHeader (openNextTable name) path draft.entries).map fun entries =>
        (⟨entries, path ++ [name]⟩, rest)
    | _ => none
  | '[' :: rest =>
    match readKey rest with
    | some ((path, name), ']' :: rest) =>
      (alongHeader (openTable name) path draft.entries).map fun entries =>
        (⟨entries, path ++ [name]⟩, rest)
    | _ => none
  | cs =>
    match readKey cs with
    | some ((path, name), '=' :: rest) => do
      let (node, rest) ← readValue fuel nestingLimit (skipBlanks rest)
      let entries ← alongHeader (alongDotted (addEntry name node) path) draft.header draft.entries
      some (⟨entries, draft.header⟩, rest)
    | _ => none

/-- Reads the lines that are left. -/
def readLines : Nat → Draft → List Char → Option Draft
  | 0, _, _ => none
  | fuel + 1, draft, cs =>
    match skipFiller false cs with
    | none => none
    | some [] => some draft
    | some rest => do
      let (draft, rest) ← readExpression fuel draft rest
      readLines fuel draft (← afterLine? rest)

/-- The entries of the document that a text writes. -/
def entriesOf? (text : String) : Option Entries :=
  let cs := dropByteOrderMark text.toList
  (readLines (2 * cs.length + 2) ⟨[], []⟩ cs).map (·.entries)

end Statechart.Toml
