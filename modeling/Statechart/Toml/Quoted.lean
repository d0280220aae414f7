import Statechart.Text.Digit
set_option autoImplicit false

/-!
# TOML documents: strings

Strings stand in double or single quotes, one for strings within a line and three for strings over
several lines.  Only double quotes know escapes.
-/

namespace Statechart.Toml

open Statechart.Text

/-- Blanks within a line. -/
def isBlank (c : Char) : Bool :=
  c = ' ' || c = '\t'

/-- Characters that may stand in comments and in strings. -/
def isPlain (c : Char) : Bool :=
  c = '\t' || (32 ≤ c.toNat && c.toNat ≠ 127)

/-- The text after a line break. -/
def afterLineBreak? : List Char → Option (List Char)
  | '\n' :: rest => some rest
  | '\r' :: '\n' :: rest => some rest
  | _ => none

/-- The text after all blanks and line breaks at its front. -/
def skipLines : List Char → List Char
  | '\r' :: '\n' :: rest => skipLines rest
  | c :: rest => if isBlank c || c = '\n' then skipLines rest else c :: rest
  | [] => []

theorem length_skipLines_le (cs : List Char) : (skipLines cs).length ≤ cs.length := by
  fun_induction skipLines cs <;> simp_all <;> omega

theorem length_afterLineBreak? {cs rest : List Char} (h : afterLineBreak? cs = some rest) :
    rest.length < cs.length := by
  unfold afterLineBreak? at h
  split at h
  · cases h; simp
  · cases h
    simp only [List.length_cons]
    omega
  · cases h

/-- The character that a backslash and a letter write. -/
def escapedChar? (c : Char) : Option Char :=
  if c = '\x22' then some '\x22'
  else if c = '\x5c' then some '\x5c'
  else if c = 'b' then some '\x08'
  else if c = 't' then some '\t'
  else if c = 'n' then some '\n'
  else if c = 'f' then some '\x0c'
  else if c = 'r' then some '\r'
  else none

/-- The character whose number hexadecimal digits write. -/
def numberedChar? (digits : List Char) : Option Char :=
  (number? 16 digits).bind fun code =>
    if code.isValidChar then some (Char.ofNat code) else none

/-- A backslash at the end of a line takes the line break and all blanks after it away. -/
def lineJoin? (cs : List Char) : Option (List Char) :=
  (afterLineBreak? (cs.dropWhile isBlank)).map skipLines

/-- Reads what follows a backslash: the characters that are written, and the rest. -/
def escape? (multiline : Bool) : List Char → Option (List Char × List Char)
  | 'u' :: a :: b :: c :: d :: rest => (numberedChar? [a, b, c, d]).map fun x => ([x], rest)
  | 'U' :: a :: b :: c :: d :: e :: f :: g :: h :: rest =>
    (numberedChar? [a, b, c, d, e, f, g, h]).map fun x => ([x], rest)
  | c :: rest =>
    match escapedChar? c with
    | some x => some ([x], rest)
    | none => if multiline then (lineJoin? (c :: rest)).map fun rest => ([], rest) else none
  | [] => none

theorem length_lineJoin? {cs rest : List Char} (h : lineJoin? cs = some rest) :
    rest.length < cs.length := by
  obtain ⟨lines, hl, rfl⟩ := Option.map_eq_some_iff.1 h
  have h1 := length_afterLineBreak? hl
  have h2 := length_skipLines_le lines
  have h3 := (List.dropWhile_sublist isBlank (l := cs)).length_le
  omega

theorem length_escape? {multiline : Bool} {cs : List Char} {r : List Char × List Char}
    (h : escape? multiline cs = some r) : r.2.length < cs.length := by
  unfold escape? at h
  split at h
  · obtain ⟨_, _, rfl⟩ := Option.map_eq_some_iff.1 h
    simp only [List.length_cons]
    omega
  · obtain ⟨_, _, rfl⟩ := Option.map_eq_some_iff.1 h
    simp only [List.length_cons]
    omega
  · split at h
    · cases h; simp
    · split at h
      · obtain ⟨_, hj, rfl⟩ := Option.map_eq_some_iff.1 h
        exact length_lineJoin? hj
      · cases h
  · cases h

/-- The end of a string at the front of a text.  Up to two quotes before the closing three belong to
the string. -/
def closing? (quote : Char) (multiline : Bool) (cs : List Char) : Option (List Char × List Char) :=
  let run := (cs.takeWhile (· = quote)).length
  if multiline then
    if run < 3 then none else some (List.replicate (min (run - 3) 2) quote, cs.drop (min run 5))
  else if run = 0 then none
  else some ([], cs.drop 1)

/-- Reads the characters of a string up to its end, the opening quotes having been read. -/
def readQuoted (quote : Char) (multiline : Bool) (cs : List Char) :
    Option (List Char × List Char) :=
  match closing? quote multiline cs with
  | some result => some result
  | none =>
    match cs with
    | [] => none
    | '\r' :: '\n' :: rest =>
      if multiline then
        (readQuoted quote multiline rest).map fun (text, rest) => ('\r' :: '\n' :: text, rest)
      else none
    | c :: rest =>
      if c = '\x5c' ∧ quote = '\x22' then
        match _h : escape? multiline rest with
        | none => none
        | some (written, rest) =>
          (readQuoted quote multiline rest).map fun (text, rest) => (written ++ text, rest)
      else if isPlain c || (multiline && c = '\n') then
        (readQuoted quote multiline rest).map fun (text, rest) => (c :: text, rest)
      else none
termination_by cs.length
decreasing_by
  · simp only [List.length_cons]
    omega
  · have := length_escape? _h
    simp only [List.length_cons] at this ⊢
    omega
  · simp

/-- Quotes that strings stand in. -/
def isQuote (c : Char) : Bool :=
  c = '\x22' || c = '\x27'

/-- Reads a string within a line. -/
def readLineString : List Char → Option (String × List Char)
  | quote :: rest =>
    if isQuote quote then
      (readQuoted quote false rest).map fun (text, rest) => (String.ofList text, rest)
    else none
  | [] => none

/-- Reads a string.  A line break right after three opening quotes does not count. -/
def readString (cs : List Char) : Option (String × List Char) :=
  match cs with
  | a :: b :: c :: rest =>
    if isQuote a ∧ b = a ∧ c = a then
      (readQuoted a true ((afterLineBreak? rest).getD rest)).map fun (text, rest) =>
        (String.ofList text, rest)
    else readLineString cs
  | _ => readLineString cs

end Statechart.Toml
