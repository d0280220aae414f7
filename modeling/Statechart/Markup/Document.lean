import Statechart.Markup.Tag
set_option autoImplicit false

/-!
# Markup: documents

From pieces to the element tree.  Elements that are still open form a stack, innermost first; an
element joins its parent, or becomes the root, when its end is reached.
-/

namespace Statechart.Markup

/-- An element whose end tag has not been read.  Its children so far are kept latest first. -/
structure OpenElement where
  name : String
  attributes : List Attribute
  earlier : List Element
  deriving Inhabited

/-- The element, once its end tag is read. -/
def OpenElement.close (o : OpenElement) : Element :=
  ⟨o.name, o.attributes, o.earlier.reverse⟩

/-- What has been read of a document: the open elements, innermost first, and the finished root. -/
structure Draft where
  opened : List OpenElement := []
  root? : Option Element := none
  deriving Inhabited

namespace Draft

/-- Takes in a finished element: as a child of the innermost open element, or as the root. -/
def add (d : Draft) (e : Element) : Except Fault Draft :=
  match d.opened, d.root? with
  | parent :: outer, _ =>
    .ok { d with opened := { parent with earlier := e :: parent.earlier } :: outer }
  | [], none => .ok { d with root? := some e }
  | [], some _ => .error (.afterRoot e.name)

/-- Takes in a start tag or the tag of an empty element. -/
def openTag (d : Draft) (body : List Char) : Except Fault Draft :=
  let (content, isEmpty) := splitEmptyMark body
  match tagAttributes content with
  | .error fault => .error fault
  | .ok attributes =>
    if isEmpty then d.add ⟨tagName content, attributes, []⟩
    else .ok { d with opened := ⟨tagName content, attributes, []⟩ :: d.opened }

/-- Takes in an end tag that ends after `stop` bytes. -/
def closeTag (d : Draft) (stop : Nat) (body : List Char) : Except Fault Draft :=
  let found := endTagName body
  match d.opened with
  | [] => .error (.construct stop (.unmatchedEnd found))
  | innermost :: outer =>
    if innermost.name = found then { d with opened := outer }.add innermost.close
    else .error (.construct stop (.mismatchedEnd innermost.name found))

/-- Takes in a piece that ends after `stop` bytes; only tags matter. -/
def piece (d : Draft) (stop : Nat) : Piece → Except Fault Draft
  | .opening body => d.openTag body
  | .closing body => d.closeTag stop body
  | _ => .ok d

/-- The document, once the text has ended. -/
def finish (d : Draft) : Except Fault Element :=
  match d.opened, d.root? with
  | innermost :: _, _ => .error (.notClosed innermost.name)
  | [], none => .error .noRoot
  | [], some root => .ok root

/-- Takes in the rest of a scan. -/
def read (d : Draft) : Scan → Except Fault Element
  | .finish => d.finish
  | .fault offset cause => .error (.construct offset cause)
  | .piece p stop rest =>
    match d.piece stop p with
    | .error fault => .error fault
    | .ok d => d.read rest

end Draft

/-- Reads a markup text into its root element. -/
def Element.ofText (text : String) : Except Fault Element :=
  Draft.read {} (scan text)

end Statechart.Markup
