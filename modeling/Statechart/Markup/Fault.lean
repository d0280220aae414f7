set_option autoImplicit false

/-!
# Markup: faults

Everything that can be wrong with a markup text, as causes.  Three kinds of fault carry a place:
a construct is reported with the number of bytes read when it failed, an attribute with its position
inside its tag, an entity with its range inside the attribute's value.  `Fault.message` is the only
place where causes are put into words.
-/

namespace Statechart.Markup

/-- What can be wrong with a construct that starts with `<`. -/
inductive ConstructFault where
  /-- `<!` is followed by something that starts no construct -/
  | unknownBang
  /-- `<?` without its `?>` -/
  | unclosedInstruction
  /-- `<!-` that is no complete comment -/
  | unclosedComment
  /-- `<!D` that is no complete document type declaration -/
  | unclosedDoctype
  /-- `<![` that is no complete character data section -/
  | unclosedCData
  /-- a tag without its `>` -/
  | unclosedTag
  /-- a document type declaration that names no type -/
  | missingDoctypeName
  /-- an end tag while no element is open -/
  | unmatchedEnd (found : String)
  /-- an end tag that does not name the innermost open element -/
  | mismatchedEnd (expected found : String)
  deriving DecidableEq, Repr, Inhabited

/-- What can be wrong with the attributes of a tag; positions count bytes from the tag's name. -/
inductive AttributeFault where
  /-- something else stands where `=` belongs -/
  | expectedEquals (position : Nat)
  /-- nothing follows the `=` -/
  | missingValue (position : Nat)
  /-- the value starts with something that is no quote -/
  | unquotedValue (position : Nat)
  /-- the value's closing quote is missing -/
  | missingQuote (position : Nat) (quote : Char)
  /-- an earlier attribute of the tag has the same name -/
  | duplicated (position previous : Nat)
  deriving DecidableEq, Repr, Inhabited

/-- What can be wrong with an entity in an attribute's value. -/
inductive EntityFault where
  /-- no `;` ends the entity that starts at `start`; the value has `size` bytes -/
  | unterminated (start size : Nat)
  /-- the entity between the two positions has an unknown name -/
  | unrecognized (start stop : Nat) (name : String)
  /-- a character number with a sign -/
  | signedNumber
  /-- a character number without digits -/
  | emptyNumber
  /-- a character number with something that is no digit -/
  | invalidDigit
  /-- a character number above the 32 bit range -/
  | numberTooLarge
  /-- the character number zero -/
  | nullCharacter
  /-- a number that belongs to no character -/
  | notCharacter (code : Nat)
  deriving DecidableEq, Repr, Inhabited

/-- Why a text is no document. -/
inductive Fault where
  /-- a construct failed after `offset` bytes -/
  | construct (offset : Nat) (cause : ConstructFault)
  /-- the attributes of an element's tag are wrong -/
  | attribute (element : String) (cause : AttributeFault)
  /-- an attribute's value holds a bad entity -/
  | entity (cause : EntityFault)
  /-- a second element at the top level -/
  | afterRoot (name : String)
  /-- the text ended inside an element -/
  | notClosed (name : String)
  /-- the text holds no element -/
  | noRoot
  deriving DecidableEq, Repr, Inhabited

/-- The wording of a construct's fault. -/
def ConstructFault.message : ConstructFault → String
  | .unknownBang => "syntax error: unknown or missed symbol in markup"
  | .unclosedInstruction =>
    "syntax error: processing instruction or xml declaration not closed: "
      ++ "`?>` not found before end of input"
  | .unclosedComment => "syntax error: comment not closed: `-->` not found before end of input"
  | .unclosedDoctype => "syntax error: DOCTYPE not closed: `>` not found before end of input"
  | .unclosedCData => "syntax error: CDATA not closed: `]]>` not found before end of input"
  | .unclosedTag => "syntax error: tag not closed: `>` not found before end of input"
  | .missingDoctypeName =>
    "ill-formed document: `<!DOCTYPE>` declaration does not contain a name of a document type"
  | .unmatchedEnd found =>
    "ill-formed document: close tag `</" ++ found ++ ">` does not match any open tag"
  | .mismatchedEnd expected found =>
    "ill-formed document: expected `</" ++ expected ++ ">`, but `</" ++ found ++ ">` was found"

/-- The wording of an attribute's fault. -/
def AttributeFault.message : AttributeFault → String
  | .expectedEquals position =>
    "position " ++ toString position
      ++ ": attribute key must be directly followed by `=` or space"
  | .missingValue position =>
    "position " ++ toString position ++ ": `=` must be followed by an attribute value"
  | .unquotedValue position =>
    "position " ++ toString position ++ ": attribute value must be enclosed in `\x22` or `\x27`"
  | .missingQuote position quote =>
    "position " ++ toString position ++ ": missing closing quote `" ++ quote.toString
      ++ "` in attribute value"
  | .duplicated position previous =>
    "position " ++ toString position ++ ": duplicated attribute, previous declaration at position "
      ++ toString previous

/-- The wording of an entity's fault. -/
def EntityFault.message : EntityFault → String
  | .unterminated start size =>
    "Error while escaping character at range " ++ toString start ++ ".." ++ toString size
      ++ ": Cannot find \x27;\x27 after \x27&\x27"
  | .unrecognized start stop name =>
    "at " ++ toString start ++ ".." ++ toString stop ++ ": unrecognized entity `" ++ name ++ "`"
  | .signedNumber => "invalid character reference: unexpected number sign"
  | .emptyNumber => "invalid character reference: cannot parse integer from empty string"
  | .invalidDigit => "invalid character reference: invalid digit found in string"
  | .numberTooLarge => "invalid character reference: number too large to fit in target type"
  | .nullCharacter => "invalid character reference: 0x0 character is not permitted in XML"
  | .notCharacter code =>
    "invalid character reference: `" ++ toString code ++ "` is not a valid codepoint"

/-- The wording of a fault. -/
def Fault.message : Fault → String
  | .construct offset cause =>
    "malformed markup at byte " ++ toString offset ++ ": " ++ cause.message
  | .attribute element cause => "malformed markup in <" ++ element ++ ">: " ++ cause.message
  | .entity cause => "malformed markup: " ++ cause.message
  | .afterRoot name => "malformed markup: element " ++ name ++ " follows the root element"
  | .notClosed name =>
    "malformed markup: unexpected end of document, <" ++ name ++ "> is not closed"
  | .noRoot => "malformed markup: document has no root element"

end Statechart.Markup
