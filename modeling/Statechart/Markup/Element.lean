set_option autoImplicit false

/-!
# Markup: elements

A document is a tree of elements.  An element has a name, attributes in the order in which they are
written, and children in document order; text between the tags carries no meaning and is not kept.
-/

namespace Statechart.Markup

/-- One attribute of an element. -/
structure Attribute where
  name : String
  value : String
  deriving DecidableEq, Repr, Inhabited

/-- An element with everything inside it. -/
structure Element where
  name : String
  attributes : List Attribute
  children : List Element
  deriving Repr, Inhabited

/-- One line of an outline: an element without its content, and how deep it is nested. -/
structure OutlineNode where
  depth : Nat
  name : String
  attributes : List Attribute
  deriving DecidableEq, Repr, Inhabited

namespace Element

/-- The value of the first attribute called `name`, if there is one. -/
def attr? (e : Element) (name : String) : Option String :=
  (e.attributes.find? (·.name = name)).map (·.value)

/-- The value of the first attribute called `name`; an absent attribute reads as the empty text. -/
def attr (e : Element) (name : String) : String :=
  (e.attr? name).getD ""

/-- Whether an attribute called `name` is written on the element. -/
def hasAttr (e : Element) (name : String) : Bool :=
  e.attributes.any (·.name = name)

/-- The direct children with the element name `name`, in document order. -/
def childrenNamed (e : Element) (name : String) : List Element :=
  e.children.filter (·.name = name)

/-- The element that a path of child positions leads to. -/
def at? (e : Element) : List Nat → Option Element
  | [] => some e
  | i :: path => (e.children[i]?).bind (·.at? path)

mutual

/-- The element and everything inside it in document order, each with its depth. -/
def outline (depth : Nat) : Element → List OutlineNode
  | ⟨name, attributes, children⟩ => ⟨depth, name, attributes⟩ :: outlineAll (depth + 1) children

/-- The outlines of siblings, one after the other. -/
def outlineAll (depth : Nat) : List Element → List OutlineNode
  | [] => []
  | e :: es => outline depth e ++ outlineAll depth es

end

end Element

end Statechart.Markup
