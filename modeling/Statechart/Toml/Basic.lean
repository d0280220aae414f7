set_option autoImplicit false

/-!
# TOML documents

What a document in the TOML data format holds: scalars, arrays, and tables of named entries.  How a
table came into being decides which later lines may extend it, so a table carries its origin.
-/

namespace Statechart.Toml

/-- A value that has no parts. -/
inductive Scalar where
  | string (text : String)
  | integer (n : Int)
  /-- the form of an integer, with digits that do not write one; it fails only where its value is
  asked for -/
  | looseInteger (written : String)
  /-- a decimal fraction, infinite or not a number; `tooLarge` if it is written as a number beyond
  the range of binary64 -/
  | decimal (tooLarge : Bool)
  | bool (b : Bool)
  /-- a date, a time of day, or both -/
  | moment (written : String)
  deriving DecidableEq, Repr, Inhabited

/-- How a table came into being. -/
inductive Origin where
  /-- named by a header of its own -/
  | header
  /-- on the way to a table or an array of tables that a header names -/
  | passage
  /-- on the way to an entry with a dotted key -/
  | dotted
  /-- written in braces -/
  | braces
  deriving DecidableEq, Repr, Inhabited

/-- A value at a name. -/
inductive Node where
  | scalar (value : Scalar)
  | array (items : List Node)
  | table (origin : Origin) (entries : List (String × Node))
  /-- an array of tables, each named by a header; the last one is open -/
  | tables (earlier : List Node) (last : List (String × Node))
  deriving Repr, Inhabited

/-- The entries of a table, each name at most once, in the order in which they were made. -/
abbrev Entries : Type := List (String × Node)

namespace Entries

/-- The value at a name. -/
def get? (entries : Entries) (name : String) : Option Node :=
  (entries.find? (·.1 = name)).map (·.2)

/-- Replaces the value at a name. -/
def set (entries : Entries) (name : String) (node : Node) : Entries :=
  entries.map fun entry => if entry.1 = name then (name, node) else entry

/-- Adds a name that is not there yet. -/
def add (entries : Entries) (name : String) (node : Node) : Entries :=
  entries ++ [(name, node)]

end Entries

end Statechart.Toml
