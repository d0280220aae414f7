import Statechart.Settings.Basic
import Statechart.Toml.Document
set_option autoImplicit false

/-!
# Settings from TOML

Settings have a section for logging, for drawings and for sources.  A section is a table, or an array
of its fields in order.  What is left out takes its default, and unknown names are ignored.
-/

namespace Statechart

open Statechart.Toml

namespace Toml

/-- Scalars whose value can be represented: integers that are written and lie within 128 bits, and
fractions within the range of binary64. -/
def Scalar.isRepresentable : Scalar → Bool
  | .integer n => -(Int.pow 2 127) ≤ n && n < Int.pow 2 128
  | .looseInteger _ => false
  | .decimal tooLarge => !tooLarge
  | _ => true

mutual

/-- Whether every scalar inside a value can be represented. -/
def Node.isRepresentable : Node → Bool
  | .scalar value => value.isRepresentable
  | .array items => Node.areRepresentable items
  | .table _ entries => Node.entriesAreRepresentable entries
  | .tables earlier last => Node.areRepresentable earlier && Node.entriesAreRepresentable last

/-- Whether every scalar inside values can be represented. -/
def Node.areRepresentable : List Node → Bool
  | [] => true
  | node :: rest => node.isRepresentable && Node.areRepresentable rest

/-- Whether every scalar inside entries can be represented. -/
def Node.entriesAreRepresentable : List (String × Node) → Bool
  | [] => true
  | (_, node) :: rest => node.isRepresentable && Node.entriesAreRepresentable rest

end

/-- The text that a value holds. -/
def Node.text? : Node → Option String
  | .scalar (.string text) => some text
  | _ => none

/-- The truth value that a value holds. -/
def Node.bool? : Node → Option Bool
  | .scalar (.bool b) => some b
  | _ => none

/-- The count of 64 bits that a value holds. -/
def Node.count? : Node → Option Nat
  | .scalar (.integer n) => if 0 ≤ n ∧ n < Int.pow 2 64 then some n.toNat else none
  | _ => none

/-- A field that may be left out. -/
def field? {α : Type} (read? : Node → Option α) (default : α) : Option Node → Option α
  | none => some default
  | some node => read? node

/-- The values of named fields in a table; values under other names have to be representable. -/
def fieldsOfEntries? (names : List String) (entries : Entries) : Option (List (Option Node)) :=
  if Node.entriesAreRepresentable (entries.filter fun entry => !names.contains entry.1) then
    some (names.map entries.get?)
  else none

/-- The values of the fields of a section.  An array has to hold at least `required` of them; a
moment, which is a value with parts of its own, holds none. -/
def sectionFields? (names : List String) (required : Nat) : Node → Option (List (Option Node))
  | .table _ entries => fieldsOfEntries? names entries
  | .array items =>
    if items.length < required then none
    else some ((List.range names.length).map fun i => items[i]?)
  | .scalar (.moment _) => some (names.map fun _ => none)
  | _ => none

end Toml

/-- Reads the section for logging. -/
def LogSettings.ofToml? (node : Node) : Option LogSettings := do
  match ← sectionFields? ["level", "file"] 2 node with
  | [level, file] =>
    some ⟨← field? Node.text? ({} : LogSettings).level level,
      ← field? (fun node => node.text?.map some) none file⟩
  | _ => none

/-- Reads the section for drawings. -/
def GraphStyle.ofToml? (node : Node) : Option GraphStyle := do
  match ← sectionFields? ["indent", "base_shape", "base_color"] 0 node with
  | [indent, shape, color] =>
    some ⟨← field? Node.count? ({} : GraphStyle).indent indent,
      ← field? Node.text? ({} : GraphStyle).baseShape shape,
      ← field? Node.text? ({} : GraphStyle).baseColor color⟩
  | _ => none

/-- Reads the section for sources. -/
def Source.SourceOptions.ofToml? (node : Node) : Option Source.SourceOptions := do
  match ← sectionFields? ["nest_package_modules", "header"] 0 node with
  | [nest, header] =>
    some ⟨← field? Node.bool? ({} : Source.SourceOptions).nestPackages nest,
      ← field? Node.bool? ({} : Source.SourceOptions).header header⟩
  | _ => none

/-- Reads settings from the entries of a document. -/
def Settings.ofEntries? (entries : Entries) : Option Settings := do
  match ← fieldsOfEntries? ["logging", "graph", "codegen"] entries with
  | [log, graph, source] =>
    some ⟨← field? LogSettings.ofToml? {} log, ← field? GraphStyle.ofToml? {} graph,
      ← field? Source.SourceOptions.ofToml? {} source⟩
  | _ => none

/-- Reads settings from a text. -/
def Settings.ofText? (text : String) : Option Settings :=
  (entriesOf? text).bind Settings.ofEntries?

end Statechart
