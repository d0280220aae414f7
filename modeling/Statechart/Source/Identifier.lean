set_option autoImplicit false

/-!
# Source: identifiers

Names that a chart supplies are written into the generated source as they stand, so each of them has
to be an identifier of the generated language.  `identifierFault?` is the rule, with the reasons in
the order in which they are reported.
-/

namespace Statechart.Source

/-- Why a name is no identifier. -/
inductive IdentifierFault where
  | empty
  | loneUnderscore
  | malformed
  | reserved
  deriving DecidableEq, Repr, Inhabited

/-- The wording of a reason. -/
def IdentifierFault.message : IdentifierFault → String
  | .empty => "identifier cannot be empty"
  | .loneUnderscore => "identifier cannot be a lone underscore"
  | .malformed =>
    "only ASCII letters, digits and underscores are allowed, and it cannot start with a digit"
  | .reserved => "reserved word"

/-- Words that the generated language keeps for itself. -/
def reservedWords : List String :=
  ["as", "async", "await", "break", "const", "continue", "crate", "dyn", "else", "enum",
    "extern", "false", "fn", "for", "gen", "if", "impl", "in", "let", "loop", "match", "mod",
    "move", "mut", "pub", "ref", "return", "self", "Self", "static", "struct", "super", "trait",
    "true", "try", "type", "unsafe", "use", "where", "while", "abstract", "become", "box", "do",
    "final", "macro", "override", "priv", "typeof", "unsized", "virtual", "yield"]

/-- Characters that may start an identifier: ASCII letters and the underscore. -/
def isIdentifierStart (c : Char) : Bool :=
  c.isAlpha || c = '_'

/-- Characters that may continue an identifier: ASCII letters, digits and the underscore. -/
def isIdentifierPart (c : Char) : Bool :=
  c.isAlphanum || c = '_'

/-- Whether characters have the form of an identifier. -/
def hasIdentifierForm : List Char → Bool
  | [] => false
  | c :: cs => isIdentifierStart c && cs.all isIdentifierPart

/-- Why a name cannot be used as an identifier, if it cannot. -/
def identifierFault? (name : String) : Option IdentifierFault :=
  if name = "" then some .empty
  else if name = "_" then some .loneUnderscore
  else if !hasIdentifierForm name.toList then some .malformed
  else if name ∈ reservedWords then some .reserved
  else none

/-- Whether a name can be used as an identifier. -/
def IsIdentifier (name : String) : Prop :=
  identifierFault? name = none

instance (name : String) : Decidable (IsIdentifier name) :=
  inferInstanceAs (Decidable (_ = _))

end Statechart.Source
