import Statechart.Proofs.Markup.Writing
set_option autoImplicit false

/-!
# Markup: reading what was written

A text that writes a tree is read as that tree (`ofText_written`).

What a text does to a draft is said for each construct with any text after it: characters and
comments leave the draft as it is, the tag of an empty element adds it, and a start tag, its
children and an end tag together add the element.  So a text that writes siblings adds them to the
draft, and reading goes on behind it (`Draft.readFrom_written`); the induction is over how the
siblings were written, with the draft and the text after them left open.
-/

namespace Statechart.Markup

open Statechart.Text

/-! ## One piece -/

theorem scanFrom_of_front {c : Char} {cs rest : List Char} {p : Piece}
    (h : front c cs = .piece p rest) (offset : Nat) :
    scanFrom offset (c :: cs) =
      .piece p (offset + byteSize p.chars) (scanFrom (offset + byteSize p.chars) rest) := by
  rw [scanFrom]
  generalize front c cs = found at h ⊢
  subst h
  rfl

/-- What the text from a place on makes of a draft. -/
def Draft.readFrom (d : Draft) (offset : Nat) (cs : List Char) : Except Fault Element :=
  d.read (scanFrom offset cs)

theorem Draft.readFrom_of_front {c : Char} {cs rest : List Char} {p : Piece}
    (h : front c cs = .piece p rest) (d : Draft) (offset : Nat) :
    d.readFrom offset (c :: cs) = d.piece (offset + byteSize p.chars) p >>= fun d =>
      d.readFrom (offset + byteSize p.chars) rest := by
  unfold Draft.readFrom
  rw [scanFrom_of_front h, Draft.read]
  cases d.piece (offset + byteSize p.chars) p <;> rfl

/-- A character that starts no tag does nothing. -/
theorem Draft.readFrom_char {c : Char} (hc : c ≠ '<') (d : Draft) (offset : Nat) (cs : List Char) :
    d.readFrom offset (c :: cs) = d.readFrom (offset + c.utf8Size) cs := by
  have hfront : front c cs =
      .piece (.text (c :: cs.takeWhile (· ≠ '<'))) (cs.dropWhile (· ≠ '<')) := by
    rw [front, if_neg hc]
  rw [Draft.readFrom_of_front hfront]
  -- what follows starts a piece of its own, or is more of the same text
  cases cs with
  | nil => simp [Draft.piece, bind, Except.bind, Piece.chars]
  | cons c' cs =>
    by_cases hc' : c' = '<'
    · simp [Draft.piece, bind, Except.bind, Piece.chars, hc']
    · have hfront' : front c' cs =
          .piece (.text (c' :: cs.takeWhile (· ≠ '<'))) (cs.dropWhile (· ≠ '<')) := by
        rw [front, if_neg hc']
      rw [Draft.readFrom_of_front hfront']
      simp [Draft.piece, bind, Except.bind, Piece.chars, hc', Nat.add_assoc]

/-- A comment ends at the first mark after it. -/
theorem cutAt_comment {body : List Char} (hbody : ¬ ['-', '-'] <:+: body) (rest : List Char) :
    cutAt ['-', '-', '>'] (body ++ ['-', '-', '>'] ++ rest) = some (body, rest) := by
  induction body with
  | nil => simp [cutAt]
  | cons c body ih =>
    have htail : ¬ ['-', '-'] <:+: body := fun h =>
      hbody (h.trans (List.suffix_cons c body).isInfix)
    have hmark : ['-', '-', '>'].isPrefixOf (c :: (body ++ ['-', '-', '>'] ++ rest)) = false := by
      cases body with
      | nil => simp [List.isPrefixOf]
      | cons d body =>
        -- two hyphens here would stand in the comment
        cases hmark : ['-', '-', '>'].isPrefixOf (c :: (d :: body ++ ['-', '-', '>'] ++ rest)) with
        | false => rfl
        | true =>
          simp only [List.cons_append, List.isPrefixOf, Bool.and_eq_true, beq_iff_eq] at hmark
          obtain ⟨rfl, rfl, _⟩ := hmark
          exact absurd (List.prefix_append ['-', '-'] body).isInfix hbody
    rw [List.cons_append, List.cons_append, cutAt, hmark, ih htail]
    rfl

/-- A comment does nothing. -/
theorem Draft.readFrom_comment {body : List Char} (hbody : ¬ ['-', '-'] <:+: body) (d : Draft)
    (offset : Nat) (rest : List Char) :
    d.readFrom offset (['<', '!', '-', '-'] ++ body ++ ['-', '-', '>'] ++ rest) =
      d.readFrom (offset + byteSize (['<', '!', '-', '-'] ++ body ++ ['-', '-', '>'])) rest := by
  have hfront : front '<' ('!' :: '-' :: '-' :: (body ++ ['-', '-', '>'] ++ rest)) =
      .piece (.comment body) rest := by
    rw [front, if_pos rfl]
    simp only [markupFront, commentFront, cutAt_comment hbody, if_true]
  exact Draft.readFrom_of_front hfront d offset

/-! ## Tags -/

theorem cutTag_of_neutral {body : List Char} (h : Neutral body) (rest : List Char) :
    cutTag none (body ++ '>' :: rest) = some (body, rest) := by
  rw [h]
  simp [cutTag]

theorem markupFront_of_isAlpha {c : Char} (hc : c.isAlpha = true) (cs : List Char) :
    markupFront (c :: cs) = openingFront (c :: cs) := by
  unfold markupFront
  split
  · rename_i heq
    exact nomatch heq
  · rename_i heq
    rw [(List.cons.inj heq).1] at hc
    exact absurd hc (by decide)
  · rename_i heq
    rw [(List.cons.inj heq).1] at hc
    exact absurd hc (by decide)
  · rename_i heq
    rw [(List.cons.inj heq).1] at hc
    exact absurd hc (by decide)
  · rfl

/-- A start tag, or the tag of an empty element, is a piece of its own. -/
theorem Draft.readFrom_opening {name : List Char} (hname : hasNameForm name = true)
    {more : List Char} (hmore : Neutral more) (d : Draft) (offset : Nat) (rest : List Char) :
    d.readFrom offset ('<' :: (name ++ more ++ '>' :: rest)) =
      d.openTag (name ++ more) >>= fun d =>
        d.readFrom (offset + byteSize (['<'] ++ (name ++ more) ++ ['>'])) rest := by
  have hfront : front '<' (name ++ more ++ '>' :: rest) =
      .piece (.opening (name ++ more)) rest := by
    have hcut := cutTag_of_neutral ((neutral_name hname).append hmore) rest
    rw [front, if_pos rfl]
    cases name with
    | nil => exact nomatch hname
    | cons c name =>
      rw [List.cons_append, List.cons_append,
        markupFront_of_isAlpha (Bool.and_eq_true_iff.1 hname).1, openingFront, ← List.cons_append,
        ← List.cons_append, hcut]
  exact Draft.readFrom_of_front hfront d offset

/-- An end tag is a piece of its own. -/
theorem Draft.readFrom_closing {body : List Char} (hbody : Neutral body) (d : Draft) (offset : Nat)
    (rest : List Char) :
    d.readFrom offset ('<' :: '/' :: (body ++ '>' :: rest)) =
      d.closeTag (offset + byteSize (['<', '/'] ++ body ++ ['>'])) body >>= fun d =>
        d.readFrom (offset + byteSize (['<', '/'] ++ body ++ ['>'])) rest := by
  have hfront : front '<' ('/' :: (body ++ '>' :: rest)) = .piece (.closing body) rest := by
    rw [front, if_pos rfl]
    simp only [markupFront, closingFront, cutTag_of_neutral hbody]
  exact Draft.readFrom_of_front hfront d offset

section Tags

variable {name : String} (hname : hasNameForm name.toList = true) {attributes : List Attribute}
  (hnames : ∀ a ∈ attributes, hasNameForm a.name.toList = true)
  (hnodup : (attributes.map (·.name)).Nodup) {inside : List Char}
  (hinside : WrittenAttributes attributes inside)

include hname hnames hnodup hinside

/-- A start tag opens its element. -/
theorem Draft.openTag_written (d : Draft) : d.openTag (name.toList ++ inside) =
    .ok { d with opened := ⟨name, attributes, []⟩ :: d.opened } := by
  unfold Draft.openTag
  rw [splitEmptyMark_written hname hinside]
  simp only [tagAttributes_written hname hinside hnames hnodup, tagName_written hname hinside]
  rfl

/-- The tag of an empty element adds it. -/
theorem Draft.openTag_empty (d : Draft) :
    d.openTag (name.toList ++ (inside ++ ['/'])) = d.add ⟨name, attributes, []⟩ := by
  unfold Draft.openTag
  rw [← List.append_assoc, splitEmptyMark_concat]
  simp only [tagAttributes_written hname hinside hnames hnodup, tagName_written hname hinside]
  rfl

end Tags

/-- The end tag of the innermost element closes it. -/
theorem Draft.closeTag_written {name : String} (hname : hasNameForm name.toList = true)
    {blanks : List Char} (hblanks : ∀ c ∈ blanks, isBlank c = true) (attributes : List Attribute)
    (earlier : List Element) (outer : List OpenElement) (root? : Option Element) (stop : Nat) :
    Draft.closeTag ⟨⟨name, attributes, earlier⟩ :: outer, root?⟩ stop (name.toList ++ blanks) =
      Draft.add ⟨outer, root?⟩ ⟨name, attributes, earlier.reverse⟩ := by
  unfold Draft.closeTag
  simp only [endTagName_written hname hblanks, if_true]
  rfl

/-! ## Siblings -/

/-- Takes in finished elements one after the other. -/
def Draft.addAll (d : Draft) : List Element → Except Fault Draft
  | [] => .ok d
  | e :: es => d.add e >>= fun d => d.addAll es

/-- Inside an element any number of children can be taken in. -/
theorem Draft.addAll_opened (o : OpenElement) (outer : List OpenElement) (root? : Option Element)
    (es : List Element) : Draft.addAll ⟨o :: outer, root?⟩ es =
      .ok ⟨{ o with earlier := es.reverse ++ o.earlier } :: outer, root?⟩ := by
  induction es generalizing o with
  | nil => rfl
  | cons e es ih =>
    rw [Draft.addAll]
    refine (ih _).trans ?_
    simp

/-- A text that writes siblings adds them, and reading goes on behind it. -/
theorem Draft.readFrom_written {es : List Element} {text : List Char} (hwritten : Written es text)
    (hes : Element.AllWritable es) (d : Draft) (offset : Nat) (rest : List Char) :
    d.readFrom offset (text ++ rest) = d.addAll es >>= fun d =>
      d.readFrom (offset + byteSize text) rest := by
  induction hwritten generalizing d offset rest with
  | nil => rfl
  | char hc hrest ih =>
    rw [List.cons_append, Draft.readFrom_char hc, ih hes, byteSize_cons, Nat.add_assoc]
  | comment hbody hrest ih =>
    rw [List.append_assoc, Draft.readFrom_comment hbody, ih hes]
    simp only [byteSize_append, Nat.add_assoc]
  | empty hinside hrest ih =>
    rename_i name attributes inside es more
    obtain ⟨⟨hname, hnames, hnodup, _⟩, hes⟩ := hes
    have hmark : Neutral ['/'] := neutral_singleton (by decide) (by decide)
    have htext : ['<'] ++ name.toList ++ inside ++ ['/', '>'] ++ more ++ rest =
        '<' :: (name.toList ++ (inside ++ ['/']) ++ '>' :: (more ++ rest)) := by simp
    rw [htext, Draft.readFrom_opening hname ((neutral_attributes hinside hnames).append hmark),
      Draft.openTag_empty hname hnames hnodup hinside, Draft.addAll, bind_assoc]
    refine bind_congr fun d => ?_
    rw [ih hes]
    simp only [byteSize_append, byteSize_cons, byteSize_nil, Nat.add_assoc, Nat.zero_add]
  | full hinside hinner hblanks hrest ihinner ihrest =>
    rename_i name attributes inside inner blanks children es more
    obtain ⟨⟨hname, hnames, hnodup, hchildren⟩, hes⟩ := hes
    have htext : ['<'] ++ name.toList ++ inside ++ ['>'] ++ inner ++ ['<', '/'] ++ name.toList
          ++ blanks ++ ['>'] ++ more ++ rest =
        '<' :: (name.toList ++ inside ++ '>' :: (inner ++ '<' :: '/' ::
          (name.toList ++ blanks ++ '>' :: (more ++ rest)))) := by simp
    rw [htext, Draft.readFrom_opening hname (neutral_attributes hinside hnames),
      Draft.openTag_written hname hnames hnodup hinside]
    refine (ihinner hchildren _ _ _).trans ?_
    rw [Draft.addAll_opened]
    refine (Draft.readFrom_closing ((neutral_name hname).append (neutral_blanks hblanks)) _ _
      _).trans ?_
    rw [Draft.closeTag_written hname hblanks, List.append_nil, List.reverse_reverse, Draft.addAll,
      bind_assoc]
    refine bind_congr fun d => ?_
    rw [ihrest hes]
    simp only [byteSize_append, byteSize_cons, byteSize_nil, Nat.add_assoc, Nat.zero_add]

/-! ## Documents -/

/-- A written tree is still written without a character in front of it that starts no tag. -/
theorem Written.tail {c : Char} (hc : c ≠ '<') {es : List Element} {rest : List Char}
    (h : Written es (c :: rest)) : Written es rest := by
  cases h with
  | char _ hrest => exact hrest
  | comment => exact absurd rfl hc
  | empty => exact absurd rfl hc
  | full => exact absurd rfl hc

theorem Written.dropByteOrderMark {es : List Element} {text : List Char} (h : Written es text) :
    Written es (dropByteOrderMark text) := by
  cases text with
  | nil => exact h
  | cons c text =>
    rw [Text.dropByteOrderMark]
    split
    · rename_i hc
      exact h.tail (hc ▸ by decide)
    · exact h

/-- A text that writes one tree is read as the tree. -/
theorem Element.ofText_of_written {e : Element} (he : e.Writable) {text : List Char}
    (h : Written [e] text) : Element.ofText (String.ofList text) = .ok e := by
  have hall : Element.AllWritable [e] := ⟨he, trivial⟩
  have hread := Draft.readFrom_written h.dropByteOrderMark hall {} 0 []
  rw [List.append_nil] at hread
  unfold Element.ofText scan
  rw [String.toList_ofList]
  refine hread.trans ?_
  unfold Draft.readFrom
  rw [scanFrom]
  rfl

/-- **Reading undoes writing.**  Every tree with names that can be written has a text that writes it,
and each of these texts is read as the tree. -/
theorem ofText_written {e : Element} (he : e.Writable) :
    Written [e] e.write ∧
      ∀ text, Written [e] text → Element.ofText (String.ofList text) = .ok e :=
  ⟨e.written_write, fun _ h => Element.ofText_of_written he h⟩

/-- A tree with both forms of empty elements, and with a value that needs entities. -/
def latch : Element :=
  ⟨"latch", [⟨"id", "a<'b'>"⟩, ⟨"note", "x & \x22y\x22"⟩],
    [⟨"state", [⟨"id", "Open"⟩], []⟩, ⟨"end-state", [], []⟩]⟩

/-- A text that writes the tree, with a comment before it and blanks in several places:

    <!--a - b-->
    <latch id="a&lt;&apos;b&apos;&gt;"
        note="x &amp; &quot;y&quot;">
    <state id="Open" /><end-state></end-state ></latch>
-/
def latchText : List Char :=
  ['<', '!', '-', '-'] ++ "a - b".toList ++ ['-', '-', '>'] ++ '\n' ::
    (['<'] ++ "latch".toList
      ++ ([' '] ++ writeAttribute ⟨"id", "a<'b'>"⟩
        ++ (['\n', '\t'] ++ writeAttribute ⟨"note", "x & \x22y\x22"⟩ ++ []))
      ++ ['>']
      ++ '\n' :: (['<'] ++ "state".toList ++ ([' '] ++ writeAttribute ⟨"id", "Open"⟩ ++ [' '])
        ++ ['/', '>'] ++ (['<'] ++ "end-state".toList ++ [] ++ ['>'] ++ [] ++ ['<', '/']
          ++ "end-state".toList ++ [' '] ++ ['>'] ++ []))
      ++ ['<', '/'] ++ "latch".toList ++ [] ++ ['>'] ++ ['\n'])

/-- The tree is read from the text. -/
theorem ofText_written_latch :
    latch.Writable ∧ Written [latch] latchText ∧
      Element.ofText (String.ofList latchText) = .ok latch := by
  have hblanks : ∀ {blanks : List Char}, blanks.all isBlank = true →
      ∀ c ∈ blanks, isBlank c = true := fun h => List.all_eq_true.1 h
  have hwritable : latch.Writable := by
    simp only [latch, Element.Writable, Element.AllWritable]
    decide
  have hwritten : Written [latch] latchText := by
    refine .comment (by decide) (.char (by decide) (.full ?_ ?_ (hblanks rfl)
      (.char (by decide) .nil)))
    · exact .cons (by decide) (hblanks rfl) (.cons (by decide) (hblanks rfl) (.nil (hblanks rfl)))
    · refine .char (by decide) (.empty ?_ (.full (.nil (hblanks rfl)) .nil (hblanks rfl) .nil))
      exact .cons (by decide) (hblanks rfl) (.nil (hblanks rfl))
  exact ⟨hwritable, hwritten, (ofText_written hwritable).2 latchText hwritten⟩

end Statechart.Markup
