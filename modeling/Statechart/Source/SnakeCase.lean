set_option autoImplicit false

/-!
# Source: snake case

`GoingToTwo` becomes `going_to_two` and `HTTPServer` becomes `http_server`: capitals are lowered, and
an underscore is put in front of a capital that starts a word.  Only ASCII letters have case here.
-/

namespace Statechart.Source

/-- Whether a capital between the two given characters starts a word: it follows a small letter or a
digit, or it ends a row of capitals by being followed by a small letter. -/
def startsWord (previous next : Option Char) : Bool :=
  match previous with
  | none => false
  | some p => p.isLower || p.isDigit || (p.isUpper && next.any Char.isLower)

/-- The snake case of characters that follow `previous`. -/
def snakeChars (previous : Option Char) : List Char → List Char
  | [] => []
  | c :: cs =>
    if c.isUpper then
      (if startsWord previous cs.head? then ['_'] else []) ++ c.toLower :: snakeChars (some c) cs
    else c :: snakeChars (some c) cs

/-- The snake case of a name. -/
def snakeCase (name : String) : String :=
  String.ofList (snakeChars none name.toList)

end Statechart.Source
