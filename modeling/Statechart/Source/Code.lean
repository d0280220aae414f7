set_option autoImplicit false

/-!
# Source: code

Generated code as a tree: lines, blank lines, and blocks whose inside is indented.  A block writes
its braces itself, so blocks are always closed, at the column where they were opened.  The tree
becomes lines with depths, and only then text.
-/

namespace Statechart.Source

/-- A piece of code. -/
inductive Code where
  /-- one line -/
  | line (text : String)
  /-- an empty line, which is not indented -/
  | blank
  /-- `head` and an opening brace, the body, a closing brace and `tail` -/
  | block (head : String) (body : List Code) (tail : String := "")
  deriving Repr, Inhabited

/-- A line of text at a depth of nesting. -/
inductive CodeLine where
  | blank
  | filled (depth : Nat) (text : String)
  deriving DecidableEq, Repr, Inhabited

mutual

/-- The lines of a piece of code at a depth. -/
def Code.lines (depth : Nat) : Code → List CodeLine
  | .line text => [.filled depth text]
  | .blank => [.blank]
  | .block head body tail =>
    .filled depth (head ++ " \x7b")
      :: (Code.linesAll (depth + 1) body ++ [.filled depth ("\x7d" ++ tail)])

/-- The lines of pieces of code, one after the other. -/
def Code.linesAll (depth : Nat) : List Code → List CodeLine
  | [] => []
  | code :: rest => Code.lines depth code ++ Code.linesAll depth rest

end

/-- The text of a line, without its end: four columns for each level of nesting. -/
def CodeLine.render : CodeLine → String
  | .blank => ""
  | .filled depth text => String.ofList (List.replicate (4 * depth) ' ') ++ text

/-- The text of lines, each with its end. -/
def renderLines (lines : List CodeLine) : String :=
  String.join (lines.map fun line => line.render ++ "\n")

/-- Groups of code, with an empty line between one and the next. -/
def spaced (groups : List (List Code)) : List Code :=
  List.intercalate [.blank] groups

end Statechart.Source
