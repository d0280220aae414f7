import Statechart.Toml.Basic
set_option autoImplicit false

/-!
# TOML documents: paths

Where a header or an entry with a dotted key takes effect.  A change is a function on the entries of
one table, which may refuse; `alongHeader` and `alongDotted` carry it out at the end of a path and make
the tables on the way.
-/

namespace Statechart.Toml

/-- A change to the entries of a table. -/
abbrev Change : Type := Entries → Option Entries

/-- Makes a change at the end of a header's path.  A path leads through every table that is not
written in braces, and through the last table of an array of tables. -/
def alongHeader (change : Change) : List String → Change
  | [], entries => change entries
  | name :: path, entries =>
    match entries.get? name with
    | none => (alongHeader change path []).map fun sub => entries.add name (.table .passage sub)
    | some (.table .braces _) => none
    | some (.table origin sub) =>
      (alongHeader change path sub).map fun sub => entries.set name (.table origin sub)
    | some (.tables earlier last) =>
      (alongHeader change path last).map fun last => entries.set name (.tables earlier last)
    | some _ => none

/-- Makes a change at the end of a dotted key's path.  A table that a header names is complete without
it, and so is one in braces; the table that takes the entry comes from dotted keys alone. -/
def alongDotted (change : Change) : List String → Change
  | [], entries => change entries
  | name :: path, entries =>
    match entries.get? name with
    | none => (alongDotted change path []).map fun sub => entries.add name (.table .dotted sub)
    | some (.table .dotted sub) =>
      (alongDotted change path sub).map fun sub => entries.set name (.table .dotted sub)
    | some (.table .passage sub) =>
      if path.isEmpty then none
      else (alongDotted change path sub).map fun sub => entries.set name (.table .passage sub)
    | some (.tables earlier last) =>
      if path.isEmpty then none
      else (alongDotted change path last).map fun last => entries.set name (.tables earlier last)
    | some _ => none

/-- Adds an entry; its name has to be new. -/
def addEntry (name : String) (node : Node) : Change := fun entries =>
  match entries.get? name with
  | none => some (entries.add name node)
  | some _ => none

/-- Opens the table that a header names, which may have been passed but not named. -/
def openTable (name : String) : Change := fun entries =>
  match entries.get? name with
  | none => some (entries.add name (.table .header []))
  | some (.table .passage sub) => some (entries.set name (.table .header sub))
  | some _ => none

/-- Opens one more table of the array of tables that a header names. -/
def openNextTable (name : String) : Change := fun entries =>
  match entries.get? name with
  | none => some (entries.add name (.tables [] []))
  | some (.tables earlier last) =>
    some (entries.set name (.tables (earlier ++ [.table .header last]) []))
  | some _ => none

end Statechart.Toml
