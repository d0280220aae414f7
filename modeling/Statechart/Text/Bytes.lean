set_option autoImplicit false

/-!
# Text: sizes in bytes

Positions in a document are counted in bytes of its UTF-8 form, while the readers of this library
walk over characters.  `byteSize` relates the two: it is the number of bytes a run of characters
takes, and it is additive, so the position of a suffix is a difference of two sizes.
-/

namespace Statechart.Text

/-- Number of bytes that a run of characters takes in UTF-8. -/
def byteSize (cs : List Char) : Nat :=
  cs.foldr (fun c size => c.utf8Size + size) 0

@[simp] theorem byteSize_nil : byteSize [] = 0 := rfl

@[simp] theorem byteSize_cons (c : Char) (cs : List Char) :
    byteSize (c :: cs) = c.utf8Size + byteSize cs := rfl

@[simp] theorem byteSize_append (cs ds : List Char) :
    byteSize (cs ++ ds) = byteSize cs + byteSize ds := by
  induction cs with
  | nil => simp
  | cons c cs ih => simp [ih, Nat.add_assoc]

/-- Position, in bytes, at which the suffix `rest` of `whole` starts. -/
def position (whole rest : List Char) : Nat :=
  byteSize whole - byteSize rest

/-- The character that a text may start with to announce its encoding; it is not part of the
content. -/
def byteOrderMark : Char := Char.ofNat 0xFEFF

/-- The content of a text: the text without one leading byte order mark. -/
def dropByteOrderMark : List Char → List Char
  | [] => []
  | c :: cs => if c = byteOrderMark then cs else c :: cs

end Statechart.Text
