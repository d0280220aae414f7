import Statechart.Source.Code
set_option autoImplicit false

/-!
# Source: writing line by line

Source is written by a writer that is called for one line after the other, and that remembers nothing
but how deep it is.  It goes further in after the first line of a block, and back before the last one;
at depth zero it stays where it is.
-/

namespace Statechart.Source

/-- A call of the writer. -/
inductive Call where
  | line (words : String)
  | blank
  /-- the first line of a block -/
  | opening (words : String)
  /-- the last line of a block -/
  | closing (words : String)
  deriving DecidableEq, Repr

/-- What has been written, and how deep the writer is. -/
structure Writer where
  text : String := ""
  depth : Nat := 0
  deriving DecidableEq, Repr

namespace Writer

/-- The depth after a call. -/
def depthAfter (w : Writer) : Call → Nat
  | .line _ => w.depth
  | .blank => w.depth
  | .opening _ => w.depth + 1
  | .closing _ => w.depth - 1

/-- The line that a call writes.  Blocks are left before their last line. -/
def lineFor (w : Writer) : Call → CodeLine
  | .line words => .filled w.depth words
  | .blank => .blank
  | .opening words => .filled w.depth words
  | .closing words => .filled (w.depth - 1) words

/-- Writes the line of a call. -/
def call (w : Writer) (call : Call) : Writer where
  text := w.text ++ renderLines [w.lineFor call]
  depth := w.depthAfter call

/-- Writes the lines of calls. -/
def run (w : Writer) (calls : List Call) : Writer :=
  calls.foldl Writer.call w

end Writer

/-- What calls write from the start. -/
def write (calls : List Call) : Writer :=
  ({} : Writer).run calls

end Statechart.Source
