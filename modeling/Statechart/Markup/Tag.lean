import Statechart.Markup.Element
import Statechart.Markup.Entity
import Statechart.Markup.Piece
set_option autoImplicit false

/-!
# Markup: tags

The inside of a tag.  A start tag holds a name and attributes, and a final `/` says that its element
is empty; an end tag holds a name only.  Attributes are read from left to right, each with its value
expanded before the next one is looked at, so the first fault in the text is the one reported.
-/

namespace Statechart.Markup

open Statechart.Text

/-- An attribute as it stands in a tag: where it starts, its name, and its unexpanded value. -/
structure RawAttribute where
  start : Nat
  key : List Char
  value : List Char
  deriving DecidableEq, Repr

/-- Characters that continue an attribute's name.  The first one may be any that is no blank. -/
def isKeyChar (c : Char) : Bool :=
  c ≠ '=' && !isBlank c

/-- Reads the value of the attribute `key`, `cs` being what follows its `=`. -/
def readValue (whole : List Char) (start : Nat) (key cs : List Char) :
    Except AttributeFault (RawAttribute × List Char) :=
  match cs.dropWhile isBlank with
  | [] => .error (.missingValue (byteSize whole))
  | quote :: rest =>
    if isQuote quote then
      match rest.dropWhile (· ≠ quote) with
      | [] => .error (.missingQuote (byteSize whole) quote)
      | _ :: after => .ok (⟨start, key, rest.takeWhile (· ≠ quote)⟩, after)
    else .error (.unquotedValue (position whole (quote :: rest)))

/-- Reads the attribute that starts with `c`, followed by `cs`, in the tag `whole`; `seen` holds the
attributes before it. -/
def readAttribute (whole : List Char) (seen : List RawAttribute) (c : Char) (cs : List Char) :
    Except AttributeFault (RawAttribute × List Char) :=
  let key := c :: cs.takeWhile isKeyChar
  match (cs.dropWhile isKeyChar).dropWhile isBlank with
  | [] => .error (.expectedEquals (byteSize whole))
  | mark :: rest =>
    if mark = '=' then
      match seen.find? (·.key = key) with
      | some earlier => .error (.duplicated (position whole (c :: cs)) earlier.start)
      | none => readValue whole (position whole (c :: cs)) key rest
    else .error (.expectedEquals (position whole (mark :: rest)))

theorem length_le_of_readValue {whole key cs after : List Char} {start : Nat} {raw : RawAttribute}
    (h : readValue whole start key cs = .ok (raw, after)) : after.length ≤ cs.length := by
  have hblank := (List.dropWhile_suffix (l := cs) isBlank).length_le
  unfold readValue at h
  split at h
  · simp at h
  · rename_i quote rest hcs
    rw [hcs] at hblank
    simp only [List.length_cons] at hblank
    split at h
    · have hrest := (List.dropWhile_suffix (l := rest) (· ≠ quote)).length_le
      split at h
      · simp at h
      · rename_i hdrop
        rw [hdrop] at hrest
        simp only [Except.ok.injEq, Prod.mk.injEq] at h
        obtain ⟨-, rfl⟩ := h
        simp only [List.length_cons] at hrest
        omega
    · simp at h

theorem length_le_of_readAttribute {whole cs after : List Char} {seen : List RawAttribute}
    {c : Char} {raw : RawAttribute} (h : readAttribute whole seen c cs = .ok (raw, after)) :
    after.length ≤ cs.length := by
  have hkey := (List.dropWhile_suffix (l := cs) isKeyChar).length_le
  have hblank := (List.dropWhile_suffix (l := cs.dropWhile isKeyChar) isBlank).length_le
  unfold readAttribute at h
  simp only at h
  split at h
  · simp at h
  · rename_i mark rest hcs
    rw [hcs] at hblank
    simp only [List.length_cons] at hblank
    split at h
    · split at h
      · simp at h
      · have := length_le_of_readValue h
        omega
    · simp at h

/-- Reads the attributes in the suffix `cs` of the tag `whole`; `seen` holds those before it. -/
def readAttributes (element : String) (whole : List Char) (seen : List RawAttribute)
    (cs : List Char) : Except Fault (List Attribute) :=
  match _h : cs.dropWhile isBlank with
  | [] => .ok []
  | c :: rest =>
    match _hread : readAttribute whole seen c rest with
    | .error cause => .error (.attribute element cause)
    | .ok (raw, after) =>
      match expand raw.value with
      | .error cause => .error (.entity cause)
      | .ok value => do
        let attributes ← readAttributes element whole (seen ++ [raw]) after
        pure (⟨String.ofList raw.key, String.ofList value⟩ :: attributes)
termination_by cs.length
decreasing_by
  have hle := length_le_of_readAttribute _hread
  have hblank := (List.dropWhile_suffix (l := cs) isBlank).length_le
  rw [_h] at hblank
  simp only [List.length_cons] at hblank
  omega

/-- The name of a start tag: everything up to the first blank. -/
def tagName (content : List Char) : String :=
  String.ofList (content.takeWhile (!isBlank ·))

/-- The attributes of a start tag. -/
def tagAttributes (content : List Char) : Except Fault (List Attribute) :=
  readAttributes (tagName content) content [] (content.dropWhile (!isBlank ·))

/-- The content of a start tag without the final `/`, and whether there was one. -/
def splitEmptyMark (body : List Char) : List Char × Bool :=
  if body.getLast? = some '/' then (body.dropLast, true) else (body, false)

/-- The name of an end tag: its content without the blanks at its end, unless it is all blank. -/
def endTagName (body : List Char) : String :=
  let trimmed := (body.reverse.dropWhile isBlank).reverse
  String.ofList (if trimmed.isEmpty then body else trimmed)

end Statechart.Markup
