import Statechart.Markup.Fault
import Statechart.Text.Bytes
import Statechart.Text.Cut
set_option autoImplicit false

/-!
# Markup: pieces

The lexical level of markup.  A text is a row of pieces: runs of plain text, comments, character
data sections, document type declarations, instructions and tags.  `scan` splits a text into its
pieces, each with the number of bytes read up to its end, and stops at the first construct that is
not complete.

The main statement is `front_eq_piece`: the piece found at the front of a text, written out, followed
by the remaining text, is the text.  So a scan neither drops nor invents a character, and every step
makes the text shorter.
-/

namespace Statechart.Markup

open Statechart.Text

/-- A lexical unit of markup, without the marks that delimit it. -/
inductive Piece where
  /-- characters up to the next `<` -/
  | text (body : List Char)
  /-- `<!--` body `-->` -/
  | comment (body : List Char)
  /-- `<![CDATA[` body `]]>` -/
  | cdata (body : List Char)
  /-- `<!` keyword body `>`, the keyword being DOCTYPE in any case -/
  | doctype (keyword body : List Char)
  /-- `<?` body `?>` -/
  | instruction (body : List Char)
  /-- `</` body `>` -/
  | closing (body : List Char)
  /-- `<` body `>` -/
  | opening (body : List Char)
  deriving DecidableEq, Repr

/-- The characters of a piece, as they stand in the text. -/
def Piece.chars : Piece → List Char
  | .text body => body
  | .comment body => ['<', '!', '-', '-'] ++ body ++ ['-', '-', '>']
  | .cdata body => ['<', '!', '[', 'C', 'D', 'A', 'T', 'A', '['] ++ body ++ [']', ']', '>']
  | .doctype keyword body => ['<', '!'] ++ keyword ++ body ++ ['>']
  | .instruction body => ['<', '?'] ++ body ++ ['?', '>']
  | .closing body => ['<', '/'] ++ body ++ ['>']
  | .opening body => ['<'] ++ body ++ ['>']

/-- Blanks of markup: space, tab, line feed and carriage return. -/
def isBlank (c : Char) : Bool :=
  c = ' ' || c = '\t' || c = '\n' || c = '\r'

/-- The two characters that may enclose a value. -/
def isQuote (c : Char) : Bool :=
  c = '\x22' || c = '\x27'

/-! ## Ends of constructs -/

/-- Splits a text at the first `>` that stands outside quotes; `quote` is the quote that is open. -/
def cutTag (quote : Option Char) : List Char → Option (List Char × List Char)
  | [] => none
  | c :: cs =>
    match quote with
    | none =>
      if c = '>' then some ([], cs)
      else
        (cutTag (if isQuote c then some c else none) cs).map fun (body, rest) => (c :: body, rest)
    | some q =>
      (cutTag (if c = q then none else some q) cs).map fun (body, rest) => (c :: body, rest)

theorem cutTag_eq_some {quote : Option Char} {cs body rest : List Char}
    (h : cutTag quote cs = some (body, rest)) : body ++ '>' :: rest = cs := by
  induction cs generalizing quote body with
  | nil => simp [cutTag] at h
  | cons c cs ih =>
    simp only [cutTag] at h
    split at h
    · split at h
      · rename_i hc
        simp only [Option.some.injEq, Prod.mk.injEq] at h
        obtain ⟨rfl, rfl⟩ := h
        simp [hc]
      · obtain ⟨⟨b, r⟩, hb, he⟩ := Option.map_eq_some_iff.1 h
        simp only [Prod.mk.injEq] at he
        obtain ⟨rfl, rfl⟩ := he
        simp [ih hb]
    · obtain ⟨⟨b, r⟩, hb, he⟩ := Option.map_eq_some_iff.1 h
      simp only [Prod.mk.injEq] at he
      obtain ⟨rfl, rfl⟩ := he
      simp [ih hb]

/-- Splits a text at the first `>` that no `<` before it accounts for; `depth` counts the open
ones. -/
def cutBalanced (depth : Nat) : List Char → Option (List Char × List Char)
  | [] => none
  | c :: cs =>
    if c = '>' then
      match depth with
      | 0 => some ([], cs)
      | depth + 1 => (cutBalanced depth cs).map fun (body, rest) => (c :: body, rest)
    else
      (cutBalanced (if c = '<' then depth + 1 else depth) cs).map
        fun (body, rest) => (c :: body, rest)

theorem cutBalanced_eq_some {depth : Nat} {cs body rest : List Char}
    (h : cutBalanced depth cs = some (body, rest)) : body ++ '>' :: rest = cs := by
  induction cs generalizing depth body with
  | nil => simp [cutBalanced] at h
  | cons c cs ih =>
    simp only [cutBalanced] at h
    split at h
    · rename_i hc
      split at h
      · simp only [Option.some.injEq, Prod.mk.injEq] at h
        obtain ⟨rfl, rfl⟩ := h
        simp [hc]
      · obtain ⟨⟨b, r⟩, hb, he⟩ := Option.map_eq_some_iff.1 h
        simp only [Prod.mk.injEq] at he
        obtain ⟨rfl, rfl⟩ := he
        simp [ih hb]
    · obtain ⟨⟨b, r⟩, hb, he⟩ := Option.map_eq_some_iff.1 h
      simp only [Prod.mk.injEq] at he
      obtain ⟨rfl, rfl⟩ := he
      simp [ih hb]

/-! ## The front of a text -/

/-- What stands at the front of a text: a piece and the text after it, or a fault and the characters
read when it showed. -/
inductive Front where
  | piece (p : Piece) (rest : List Char)
  | fault (cause : ConstructFault) (consumed : List Char)
  deriving DecidableEq, Repr

/-- What `<!-` starts, `cs` being the text after it.  The two hyphens that end a comment are not
those that start it. -/
def commentFront (cs : List Char) : Front :=
  match cs with
  | [] => .fault .unclosedComment ['<', '!', '-']
  | c :: cs =>
    match cutAt ['-', '-', '>'] cs with
    | none => .fault .unclosedComment (['<', '!', '-', c] ++ cs)
    | some (body, rest) =>
      if c = '-' then .piece (.comment body) rest
      else .fault .unclosedComment (['<', '!', '-', c] ++ body ++ ['-', '-', '>'])

/-- What `<![` starts, `cs` being the text after it. -/
def cdataFront (cs : List Char) : Front :=
  match cutAt [']', ']', '>'] cs with
  | none => .fault .unclosedCData (['<', '!', '['] ++ cs)
  | some (body, rest) =>
    if ['C', 'D', 'A', 'T', 'A', '['].isPrefixOf body then .piece (.cdata (body.drop 6)) rest
    else .fault .unclosedCData (['<', '!', '['] ++ body ++ [']', ']', '>'])

/-- What `<!` starts when a D of either case follows; `cs` starts with that letter. -/
def doctypeFront (cs : List Char) : Front :=
  match cutBalanced 0 cs with
  | none => .fault .unclosedDoctype (['<', '!'] ++ cs)
  | some (body, rest) =>
    if (body.take 7).map Char.toUpper = ['D', 'O', 'C', 'T', 'Y', 'P', 'E'] then
      if (body.drop 7).all isBlank then
        .fault .missingDoctypeName (['<', '!'] ++ body ++ ['>'])
      else .piece (.doctype (body.take 7) (body.drop 7)) rest
    else .fault .unclosedDoctype (['<', '!'] ++ body ++ ['>'])

/-- What `<?` starts, `cs` being the text after it. -/
def instructionFront (cs : List Char) : Front :=
  match cs with
  | '>' :: _ => .fault .unclosedInstruction ['<', '?', '>']
  | cs =>
    match cutAt ['?', '>'] cs with
    | none => .fault .unclosedInstruction (['<', '?'] ++ cs)
    | some (body, rest) => .piece (.instruction body) rest

/-- What `</` starts, `cs` being the text after it. -/
def closingFront (cs : List Char) : Front :=
  match cutTag none cs with
  | none => .fault .unclosedTag (['<', '/'] ++ cs)
  | some (body, rest) => .piece (.closing body) rest

/-- What `<` starts when nothing else claims it, `cs` being the text after it. -/
def openingFront (cs : List Char) : Front :=
  match cutTag none cs with
  | none => .fault .unclosedTag (['<'] ++ cs)
  | some (body, rest) => .piece (.opening body) rest

/-- What `<` starts, `cs` being the text after it. -/
def markupFront (cs : List Char) : Front :=
  match cs with
  | [] => .fault .unclosedTag ['<']
  | '!' :: cs =>
    match cs with
    | '-' :: cs => commentFront cs
    | '[' :: cs => cdataFront cs
    | c :: cs => if c.toUpper = 'D' then doctypeFront (c :: cs) else .fault .unknownBang ['<']
    | [] => .fault .unknownBang ['<']
  | '?' :: cs => instructionFront cs
  | '/' :: cs => closingFront cs
  | cs => openingFront cs

/-- What stands at the front of the text `c :: cs`. -/
def front (c : Char) (cs : List Char) : Front :=
  if c = '<' then markupFront cs
  else .piece (.text (c :: cs.takeWhile (· ≠ '<'))) (cs.dropWhile (· ≠ '<'))

section Lossless

variable {cs rest : List Char} {p : Piece}

private theorem commentFront_chars (h : commentFront cs = .piece p rest) :
    p.chars ++ rest = ['<', '!', '-'] ++ cs := by
  unfold commentFront at h
  split at h
  · simp at h
  · split at h
    · simp at h
    · rename_i hcut
      split at h
      · rename_i hc
        simp only [Front.piece.injEq] at h
        obtain ⟨rfl, rfl⟩ := h
        simp [Piece.chars, ← cutAt_eq_some hcut, hc]
      · simp at h

private theorem cdataFront_chars (h : cdataFront cs = .piece p rest) :
    p.chars ++ rest = ['<', '!', '['] ++ cs := by
  unfold cdataFront at h
  split at h
  · simp at h
  · rename_i body rest' hcut
    split at h
    · rename_i hp
      simp only [Front.piece.injEq] at h
      obtain ⟨rfl, rfl⟩ := h
      obtain ⟨tail, htail⟩ := List.isPrefixOf_iff_prefix.1 hp
      have hdrop : body.drop 6 = tail := by simp [← htail]
      rw [← cutAt_eq_some hcut, hdrop, ← htail]
      simp [Piece.chars]
    · simp at h

private theorem doctypeFront_chars (h : doctypeFront cs = .piece p rest) :
    p.chars ++ rest = ['<', '!'] ++ cs := by
  unfold doctypeFront at h
  split at h
  · simp at h
  · rename_i body rest' hcut
    split at h
    · split at h
      · simp at h
      · simp only [Front.piece.injEq] at h
        obtain ⟨rfl, rfl⟩ := h
        have hbody : body.take 7 ++ (body.drop 7 ++ '>' :: rest') = body ++ '>' :: rest' := by
          rw [← List.append_assoc, List.take_append_drop]
        simp only [Piece.chars, List.append_assoc, List.cons_append, List.nil_append]
        rw [hbody, cutBalanced_eq_some hcut]
    · simp at h

private theorem instructionFront_chars (h : instructionFront cs = .piece p rest) :
    p.chars ++ rest = ['<', '?'] ++ cs := by
  unfold instructionFront at h
  split at h
  · simp at h
  · split at h
    · simp at h
    · rename_i hcut
      simp only [Front.piece.injEq] at h
      obtain ⟨rfl, rfl⟩ := h
      simp [Piece.chars, ← cutAt_eq_some hcut]

private theorem closingFront_chars (h : closingFront cs = .piece p rest) :
    p.chars ++ rest = ['<', '/'] ++ cs := by
  unfold closingFront at h
  split at h
  · simp at h
  · rename_i hcut
    simp only [Front.piece.injEq] at h
    obtain ⟨rfl, rfl⟩ := h
    simp [Piece.chars, ← cutTag_eq_some hcut]

private theorem openingFront_chars (h : openingFront cs = .piece p rest) :
    p.chars ++ rest = ['<'] ++ cs := by
  unfold openingFront at h
  split at h
  · simp at h
  · rename_i hcut
    simp only [Front.piece.injEq] at h
    obtain ⟨rfl, rfl⟩ := h
    simp [Piece.chars, ← cutTag_eq_some hcut]

private theorem markupFront_chars (h : markupFront cs = .piece p rest) :
    p.chars ++ rest = '<' :: cs := by
  unfold markupFront at h
  split at h
  · simp at h
  · split at h
    · simpa using commentFront_chars h
    · simpa using cdataFront_chars h
    · split at h
      · simpa using doctypeFront_chars h
      · simp at h
    · simp at h
  · simpa using instructionFront_chars h
  · simpa using closingFront_chars h
  · simpa using openingFront_chars h

/-- The piece at the front of a text, written out and followed by the rest, is the text. -/
theorem front_eq_piece {c : Char} (h : front c cs = .piece p rest) :
    p.chars ++ rest = c :: cs := by
  unfold front at h
  split at h
  · rename_i hc
    rw [markupFront_chars h, hc]
  · simp only [Front.piece.injEq] at h
    obtain ⟨rfl, rfl⟩ := h
    simp [Piece.chars]

private theorem markupFront_ne_text (body : List Char) :
    markupFront cs ≠ .piece (.text body) rest := by
  unfold markupFront commentFront cdataFront doctypeFront instructionFront closingFront openingFront
  repeat' split
  all_goals simp

/-- A piece at the front of a text has at least one character. -/
theorem chars_ne_nil_of_front {c : Char} (h : front c cs = .piece p rest) : p.chars ≠ [] := by
  unfold front at h
  split at h
  · cases p
    case text body => exact absurd h (markupFront_ne_text body)
    all_goals simp [Piece.chars]
  · simp only [Front.piece.injEq] at h
    obtain ⟨rfl, -⟩ := h
    simp [Piece.chars]

theorem length_lt_of_front {c : Char} (h : front c cs = .piece p rest) :
    rest.length < (c :: cs).length := by
  have hsum := congrArg List.length (front_eq_piece h)
  have hpos := List.length_pos_iff.2 (chars_ne_nil_of_front h)
  rw [List.length_append] at hsum
  omega

end Lossless

/-! ## Scanning a whole text -/

/-- A text as its pieces.  A piece is followed by the number of bytes read up to its end; the row
ends with the text or with a fault. -/
inductive Scan where
  | finish
  | fault (offset : Nat) (cause : ConstructFault)
  | piece (p : Piece) (stop : Nat) (rest : Scan)
  deriving DecidableEq, Repr

/-- Scans a text of which `offset` bytes have been read before. -/
def scanFrom (offset : Nat) (cs : List Char) : Scan :=
  match cs with
  | [] => .finish
  | c :: cs =>
    match _h : front c cs with
    | .fault cause consumed => .fault (offset + byteSize consumed) cause
    | .piece p rest =>
      .piece p (offset + byteSize p.chars) (scanFrom (offset + byteSize p.chars) rest)
termination_by cs.length
decreasing_by exact length_lt_of_front _h

/-- Scans a text; a leading byte order mark is skipped and not counted. -/
def scan (text : String) : Scan :=
  scanFrom 0 (dropByteOrderMark text.toList)

end Statechart.Markup
