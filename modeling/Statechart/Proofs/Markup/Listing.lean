import Mathlib.Data.List.Forall2
import Statechart.Proofs.Markup.RoundTrip
set_option autoImplicit false

/-!
# Markup: the tags of a text and the tree that is read from it

Elements join their parents only when they are closed, so the order of a document is rebuilt from
the inside out.  That nothing is lost, doubled or moved on the way is said through outlines: the
outline of a draft lists the finished root and then the open elements from the outermost to the
innermost, each with what it holds so far.  A start tag adds a line at the end of this outline, and
an end tag changes nothing in it (`Draft.takes_of_piece`).

The tags of a text are listed without looking at any draft: `tagsFrom` counts how deep they are
nested, and `openAfter` follows the names of the open elements and checks the end tags against them.
-/

namespace Statechart.Markup

open Statechart.Text

/-! ## The tags of a text -/

/-- A tag of a text.  Of the tag of an empty element the content is without the final `/`. -/
inductive Token where
  | start (content : List Char)
  | empty (content : List Char)
  | stop (name : String)
  deriving DecidableEq, Repr

/-- The tag that a piece is, if it is one. -/
def Piece.token? : Piece → Option Token
  | .opening body =>
    if (splitEmptyMark body).2 then some (.empty (splitEmptyMark body).1)
    else some (.start (splitEmptyMark body).1)
  | .closing body => some (.stop (endTagName body))
  | _ => none

namespace Scan

/-- The pieces of a scan. -/
def pieces : Scan → List Piece
  | .finish => []
  | .fault _ _ => []
  | .piece p _ rest => p :: rest.pieces

/-- Whether a scan gets to the end of its text. -/
def isComplete : Scan → Bool
  | .finish => true
  | .fault _ _ => false
  | .piece _ _ rest => rest.isComplete

/-- The tags of a scan, in the order of the text. -/
def tokens (scan : Scan) : List Token :=
  scan.pieces.filterMap Piece.token?

end Scan

/-- The names of the elements that are open after some tags, the innermost first; none if an end tag
is not that of the innermost open element. -/
def openAfter (opened : List String) : List Token → Option (List String)
  | [] => some opened
  | .start content :: rest => openAfter (tagName content :: opened) rest
  | .empty _ :: rest => openAfter opened rest
  | .stop name :: rest =>
    match opened with
    | [] => none
    | innermost :: outer => if innermost = name then openAfter outer rest else none

/-- A start tag or the tag of an empty element, and how deep it is nested. -/
structure Tag where
  depth : Nat
  content : List Char
  deriving DecidableEq, Repr

/-- The start tags and tags of empty elements, the first one being `depth` elements deep. -/
def tagsFrom (depth : Nat) : List Token → List Tag
  | [] => []
  | .start content :: rest => ⟨depth, content⟩ :: tagsFrom (depth + 1) rest
  | .empty content :: rest => ⟨depth, content⟩ :: tagsFrom depth rest
  | .stop _ :: rest => tagsFrom (depth - 1) rest

/-- The start tags and tags of empty elements of a text. -/
def tagsOf (text : String) : List Tag :=
  tagsFrom 0 (scan text).tokens

/-- The tag has this depth and name, and these attributes with their values expanded. -/
structure Tag.Reads (t : Tag) (node : OutlineNode) : Prop where
  depth : node.depth = t.depth
  name : node.name = tagName t.content
  attributes : tagAttributes t.content = .ok node.attributes

/-- The attributes of all tags can be read. -/
def TagsWellFormed (tags : List Tag) : Prop :=
  ∀ tag ∈ tags, ∃ attributes, tagAttributes tag.content = .ok attributes

/-- The number of elements at the top level. -/
def topCount (tags : List Tag) : Nat :=
  tags.countP (·.depth = 0)

/-- A complete scan has all of the text in its pieces. -/
theorem flatMap_chars_scanFrom (offset : Nat) (cs : List Char)
    (h : (scanFrom offset cs).isComplete = true) :
    (scanFrom offset cs).pieces.flatMap Piece.chars = cs := by
  -- every piece takes something away from the text
  induction hlength : cs.length using Nat.strongRecOn generalizing offset cs with
  | ind length ih =>
    cases cs with
    | nil =>
      rw [scanFrom]
      rfl
    | cons c cs =>
      cases hfront : front c cs with
      | fault cause consumed =>
        rw [scanFrom] at h
        generalize front c cs = found at hfront h
        subst hfront
        cases h
      | piece p rest =>
        rw [scanFrom_of_front hfront] at h ⊢
        have hrest := ih rest.length (hlength ▸ length_lt_of_front hfront)
          (offset + byteSize p.chars) rest h rfl
        rw [Scan.pieces, List.flatMap_cons, hrest]
        exact front_eq_piece hfront

/-! ## The outline of a draft -/

theorem Element.outlineAll_append (depth : Nat) (es fs : List Element) :
    Element.outlineAll depth (es ++ fs) =
      Element.outlineAll depth es ++ Element.outlineAll depth fs := by
  induction es with
  | nil => rfl
  | cons e es ih => rw [List.cons_append, Element.outlineAll, ih, Element.outlineAll,
      List.append_assoc]

theorem Element.outlineAll_singleton (depth : Nat) (e : Element) :
    Element.outlineAll depth [e] = e.outline depth := by
  rw [Element.outlineAll, Element.outlineAll, List.append_nil]

/-- The outline of open elements, the outermost first, each with what it holds so far. -/
def outlineOpened : List OpenElement → List OutlineNode
  | [] => []
  | innermost :: outer => outlineOpened outer ++ innermost.close.outline outer.length

namespace Draft

/-- The outline of what has been read. -/
def outline (d : Draft) : List OutlineNode :=
  Element.outlineAll 0 d.root?.toList ++ outlineOpened d.opened

/-- The names of the open elements, the innermost first. -/
def names (d : Draft) : List String :=
  d.opened.map (·.name)

theorem length_names (d : Draft) : d.names.length = d.opened.length :=
  List.length_map _

/-- A finished element adds its outline at the end. -/
theorem outline_add {d d' : Draft} {e : Element} (h : d.add e = .ok d') :
    d'.outline = d.outline ++ e.outline d.opened.length ∧ d'.names = d.names := by
  obtain ⟨opened, root?⟩ := d
  cases opened with
  | cons parent outer =>
    obtain rfl := Except.ok.inj h
    refine ⟨?_, rfl⟩
    simp only [outline, outlineOpened, OpenElement.close, Element.outline, List.reverse_cons,
      Element.outlineAll_append, Element.outlineAll_singleton, List.length_cons, List.append_assoc,
      List.cons_append]
  | nil =>
    cases root? with
    | some root => cases h
    | none =>
      obtain rfl := Except.ok.inj h
      refine ⟨?_, rfl⟩
      simp only [outline, outlineOpened, Option.toList_some, Option.toList_none,
        Element.outlineAll_singleton, Element.outlineAll, List.append_nil, List.nil_append,
        List.length_nil]

/-- What a tag does to a draft: which elements are open after it, and what it adds to the
outline. -/
inductive Takes (d d' : Draft) : Token → Prop where
  | start {content : List Char} {attributes : List Attribute}
    (hattributes : tagAttributes content = .ok attributes)
    (hnames : d'.names = tagName content :: d.names)
    (houtline : d'.outline = d.outline ++ [⟨d.opened.length, tagName content, attributes⟩]) :
    Takes d d' (.start content)
  | empty {content : List Char} {attributes : List Attribute}
    (hattributes : tagAttributes content = .ok attributes) (hnames : d'.names = d.names)
    (houtline : d'.outline = d.outline ++ [⟨d.opened.length, tagName content, attributes⟩]) :
    Takes d d' (.empty content)
  | stop {name : String} (hnames : d.names = name :: d'.names) (houtline : d'.outline = d.outline) :
    Takes d d' (.stop name)

/-- Takes in a tag that ends after `stop` bytes. -/
def take (d : Draft) (stop : Nat) : Token → Except Fault Draft
  | .start content =>
    tagAttributes content >>= fun attributes =>
      .ok { d with opened := ⟨tagName content, attributes, []⟩ :: d.opened }
  | .empty content =>
    tagAttributes content >>= fun attributes => d.add ⟨tagName content, attributes, []⟩
  | .stop name =>
    match d.opened with
    | [] => .error (.construct stop (.unmatchedEnd name))
    | innermost :: outer =>
      if innermost.name = name then { d with opened := outer }.add innermost.close
      else .error (.construct stop (.mismatchedEnd innermost.name name))

/-- Only the tag that a piece is matters. -/
theorem piece_eq (d : Draft) (stop : Nat) (p : Piece) :
    d.piece stop p = (p.token?.map (d.take stop)).getD (.ok d) := by
  cases p with
  | opening body =>
    rw [piece, openTag, Piece.token?]
    cases hempty : (splitEmptyMark body).2 <;>
      cases hattributes : tagAttributes (splitEmptyMark body).1 <;>
      simp [take, hempty, hattributes, bind, Except.bind]
  | closing body => rfl
  | _ => rfl

/-- A tag that is taken in does what such a tag does. -/
theorem takes_of_take {d d' : Draft} {stop : Nat} {token : Token}
    (h : d.take stop token = .ok d') : Takes d d' token := by
  cases token with
  | start content =>
    cases hattributes : tagAttributes content with
    | error fault => simp [take, hattributes, bind, Except.bind] at h
    | ok attributes =>
      simp only [take, hattributes, bind, Except.bind, Except.ok.injEq] at h
      obtain rfl := h
      refine .start hattributes rfl ?_
      simp only [outline, outlineOpened, OpenElement.close, Element.outline, List.reverse_nil,
        Element.outlineAll, List.append_assoc]
  | empty content =>
    cases hattributes : tagAttributes content with
    | error fault => simp [take, hattributes, bind, Except.bind] at h
    | ok attributes =>
      simp only [take, hattributes, bind, Except.bind] at h
      obtain ⟨houtline, hnames⟩ := outline_add h
      exact .empty hattributes hnames houtline
  | stop name =>
    obtain ⟨opened, root?⟩ := d
    cases opened with
    | nil => cases h
    | cons innermost outer =>
      simp only [take] at h
      split at h
      · rename_i hname
        obtain ⟨houtline, hnames⟩ := outline_add h
        refine .stop ?_ (houtline.trans ?_)
        · rw [hnames, ← hname]
          rfl
        · rw [outline, outline, outlineOpened, List.append_assoc]
      · cases h

/-- **What a piece does to a draft.**  A tag does what such a tag does, and any other piece does
nothing. -/
theorem takes_of_piece {d d' : Draft} {stop : Nat} {p : Piece} (h : d.piece stop p = .ok d') :
    (∃ token, p.token? = some token ∧ Takes d d' token) ∨ (p.token? = none ∧ d' = d) := by
  rw [piece_eq] at h
  cases htoken : p.token? with
  | none =>
    rw [htoken] at h
    exact .inr ⟨rfl, (Except.ok.inj h).symm⟩
  | some token =>
    rw [htoken] at h
    exact .inl ⟨token, rfl, takes_of_take h⟩

/-! ## Moments of reading -/

/-- The moments at which a text is read: the tags that have been taken in, what has been made of
them, and what is left of the scan. -/
inductive Reached (text : String) : List Token → Draft → Scan → Prop where
  | start : Reached text [] {} (scan text)
  | step {before : List Token} {d d' : Draft} {p : Piece} {stop : Nat} {rest : Scan}
    (h : Reached text before d (.piece p stop rest)) (hpiece : d.piece stop p = .ok d') :
    Reached text (before ++ p.token?.toList) d' rest

end Draft

theorem openAfter_append (opened : List String) (before after : List Token) :
    openAfter opened (before ++ after) =
      (openAfter opened before).bind fun opened => openAfter opened after := by
  induction before generalizing opened with
  | nil => rfl
  | cons token before ih =>
    cases token with
    | start content => exact ih _
    | empty content => exact ih _
    | stop name =>
      cases opened with
      | nil => rfl
      | cons innermost outer =>
        simp only [List.cons_append, openAfter]
        split
        · exact ih _
        · rfl

/-- A tag that was taken in leaves the names open that the tags alone leave open. -/
theorem Draft.Takes.openAfter_singleton {d d' : Draft} {token : Token}
    (h : Draft.Takes d d' token) : openAfter d.names [token] = some d'.names := by
  cases h with
  | start _ hnames _ => rw [openAfter, openAfter, hnames]
  | empty _ hnames _ => rw [openAfter, openAfter, hnames]
  | stop hnames _ =>
    rw [hnames, openAfter]
    simp only [if_true]
    rfl

/-- **The draft has the elements open that the tags leave open**, at every moment. -/
theorem Draft.Reached.openAfter_eq {text : String} {before : List Token} {d : Draft} {rest : Scan}
    (h : Draft.Reached text before d rest) : openAfter [] before = some d.names := by
  induction h with
  | start => rfl
  | step _ hpiece ih =>
    rw [openAfter_append, ih, Option.bind_some]
    rcases Draft.takes_of_piece hpiece with ⟨token, htoken, htakes⟩ | ⟨htoken, rfl⟩
    · rw [htoken]
      exact htakes.openAfter_singleton
    · rw [htoken]
      rfl

/-! ## Reading to the end -/

theorem Scan.tokens_piece (p : Piece) (stop : Nat) (rest : Scan) :
    (Scan.piece p stop rest).tokens = p.token?.toList ++ rest.tokens := by
  unfold Scan.tokens
  rw [Scan.pieces, List.filterMap_cons]
  cases p.token? <;> rfl

/-- A draft takes in a piece and goes on. -/
theorem Draft.read_piece (d : Draft) (p : Piece) (stop : Nat) (rest : Scan) :
    d.read (.piece p stop rest) = d.piece stop p >>= fun d => d.read rest := by
  rw [Draft.read]
  cases d.piece stop p <;> rfl

/-- The outline of a tree that was read is what the draft had and the tags that were still to
come. -/
theorem Draft.outline_of_read {d : Draft} {scan : Scan} {tree : Element}
    (h : d.read scan = .ok tree) :
    scan.isComplete = true ∧ openAfter d.names scan.tokens = some [] ∧
      ∃ nodes, List.Forall₂ Tag.Reads (tagsFrom d.opened.length scan.tokens) nodes ∧
        tree.outline 0 = d.outline ++ nodes := by
  induction scan generalizing d with
  | fault offset cause => cases h
  | finish =>
    obtain ⟨opened, root?⟩ := d
    cases opened with
    | cons innermost outer => cases h
    | nil =>
      cases root? with
      | none => cases h
      | some root =>
        obtain rfl := Except.ok.inj h
        refine ⟨rfl, rfl, [], .nil, ?_⟩
        simp only [Draft.outline, Option.toList_some, Element.outlineAll_singleton, outlineOpened,
          List.append_nil]
  | piece p stop rest ih =>
    rw [Draft.read_piece] at h
    cases hpiece : d.piece stop p with
    | error fault =>
      rw [hpiece] at h
      cases h
    | ok d' =>
      rw [hpiece] at h
      obtain ⟨hcomplete, hopen, nodes, hnodes, htree⟩ := ih h
      refine ⟨hcomplete, ?_⟩
      rw [Scan.tokens_piece]
      rcases Draft.takes_of_piece hpiece with ⟨token, htoken, htakes⟩ | ⟨htoken, rfl⟩
      · rw [htoken, openAfter_append, Option.toList_some, htakes.openAfter_singleton]
        refine ⟨hopen, ?_⟩
        rw [← d'.length_names] at hnodes
        rw [← d.length_names]
        cases htakes with
        | start hattributes hnames houtline =>
          rw [hnames] at hnodes
          rw [houtline, ← d.length_names, List.append_assoc] at htree
          exact ⟨_, .cons ⟨rfl, rfl, hattributes⟩ hnodes, htree⟩
        | empty hattributes hnames houtline =>
          rw [hnames] at hnodes
          rw [houtline, ← d.length_names, List.append_assoc] at htree
          exact ⟨_, .cons ⟨rfl, rfl, hattributes⟩ hnodes, htree⟩
        | stop hnames houtline =>
          rw [houtline] at htree
          rw [hnames]
          exact ⟨nodes, hnodes, htree⟩
      · rw [htoken]
        exact ⟨hopen, nodes, hnodes, htree⟩

/-! ## When reading succeeds -/

/-- The number of elements that a nesting depth adds to the top level. -/
def topAt (depth : Nat) : Nat :=
  if depth = 0 then 1 else 0

theorem topCount_cons (tag : Tag) (tags : List Tag) :
    topCount (tag :: tags) = topAt tag.depth + topCount tags := by
  unfold topCount topAt
  rw [List.countP_cons, Nat.add_comm]
  simp

theorem topCount_append (first second : List Tag) :
    topCount (first ++ second) = topCount first + topCount second :=
  List.countP_append

/-- The tags after matching tags are as deep as elements are open there. -/
theorem tagsFrom_append {opened names : List String} {first : List Token}
    (h : openAfter opened first = some names) (second : List Token) :
    tagsFrom opened.length (first ++ second) =
      tagsFrom opened.length first ++ tagsFrom names.length second := by
  induction first generalizing opened with
  | nil =>
    obtain rfl := Option.some.inj h
    rfl
  | cons token first ih =>
    cases token with
    | start content => exact congrArg (⟨opened.length, content⟩ :: ·) (ih h)
    | empty content => exact congrArg (⟨opened.length, content⟩ :: ·) (ih h)
    | stop name =>
      cases opened with
      | nil => cases h
      | cons innermost outer =>
        simp only [openAfter] at h
        split at h
        · exact ih h
        · cases h

namespace Draft

/-- The number of elements at the top level, finished or open. -/
def tops (d : Draft) : Nat :=
  d.root?.toList.length + if d.opened.length = 0 then 0 else 1

/-- Another open element is at the top level if none was open before. -/
theorem tops_open (o : OpenElement) (outer : List OpenElement) (root? : Option Element) :
    tops ⟨o :: outer, root?⟩ = tops ⟨outer, root?⟩ + topAt outer.length := by
  unfold tops topAt
  simp only [List.length_cons]
  split <;> split <;> omega

/-- A finished element is taken in unless it would be a second one at the top level. -/
theorem add_cases (d : Draft) (e : Element) :
    (∃ d', d.add e = .ok d' ∧ d'.names = d.names ∧ d'.tops = d.tops + topAt d.opened.length) ∨
      (∃ fault, d.add e = .error fault) ∧ 1 < d.tops + topAt d.opened.length := by
  obtain ⟨opened, root?⟩ := d
  cases opened with
  | cons parent outer => exact .inl ⟨_, rfl, rfl, rfl⟩
  | nil =>
    cases root? with
    | none => exact .inl ⟨_, rfl, rfl, rfl⟩
    | some root => exact .inr ⟨⟨_, rfl⟩, Nat.lt_add_one 1⟩

/-- A tag that is well formed and matches is taken in unless it makes a second element at the top
level. -/
theorem take_cases {d : Draft} {token : Token} {names : List String}
    (hwell : TagsWellFormed (tagsFrom d.names.length [token]))
    (hopen : openAfter d.names [token] = some names) (stop : Nat) :
    (∃ d', d.take stop token = .ok d' ∧ d'.names = names ∧
      d'.tops = d.tops + topCount (tagsFrom d.names.length [token])) ∨
    (∃ fault, d.take stop token = .error fault) ∧
      1 < d.tops + topCount (tagsFrom d.names.length [token]) := by
  rw [d.length_names] at hwell ⊢
  cases token with
  | start content =>
    obtain ⟨attributes, hattributes⟩ := hwell _ List.mem_cons_self
    refine .inl ⟨⟨⟨tagName content, attributes, []⟩ :: d.opened, d.root?⟩, ?_, ?_, ?_⟩
    · rw [take, hattributes]
      rfl
    · exact Option.some.inj hopen
    · rw [tops_open, tagsFrom, topCount_cons]
      rfl
  | empty content =>
    obtain ⟨attributes, hattributes⟩ := hwell _ List.mem_cons_self
    have htake : d.take stop (.empty content) = d.add ⟨tagName content, attributes, []⟩ := by
      rw [take, hattributes]
      rfl
    rw [htake, tagsFrom, topCount_cons]
    rcases add_cases d ⟨tagName content, attributes, []⟩ with
      ⟨d', hadd, hnames, htops⟩ | ⟨herror, htops⟩
    · exact .inl ⟨d', hadd, hnames.trans (Option.some.inj hopen), htops⟩
    · exact .inr ⟨herror, htops⟩
  | stop name =>
    obtain ⟨opened, root?⟩ := d
    cases opened with
    | nil => cases hopen
    | cons innermost outer =>
      obtain ⟨hname, htail⟩ : innermost.name = name ∧ outer.map (·.name) = names := by
        simpa [Draft.names, openAfter] using hopen
      have htake : take ⟨innermost :: outer, root?⟩ stop (.stop name) =
          add ⟨outer, root?⟩ innermost.close := if_pos hname
      rw [htake, tops_open]
      rcases add_cases ⟨outer, root?⟩ innermost.close with
        ⟨d', hadd, hnames, htops⟩ | ⟨herror, htops⟩
      · exact .inl ⟨d', hadd, hnames.trans htail, htops⟩
      · exact .inr ⟨herror, htops⟩

/-- Well-formed tags are read exactly if nothing stays open and one element is at the top level. -/
theorem exists_read_iff {d : Draft} {scan : Scan} (hcomplete : scan.isComplete = true)
    (hwell : TagsWellFormed (tagsFrom d.names.length scan.tokens)) {opened : List String}
    (hopen : openAfter d.names scan.tokens = some opened) :
    (∃ tree, d.read scan = .ok tree) ↔
      opened = [] ∧ d.tops + topCount (tagsFrom d.names.length scan.tokens) = 1 := by
  induction scan generalizing d with
  | fault offset cause => cases hcomplete
  | finish =>
    obtain rfl : d.names = opened := Option.some.inj hopen
    obtain ⟨stack, root?⟩ := d
    cases stack with
    | cons innermost outer => simp [read, finish, names]
    | nil =>
      cases root? <;>
        simp [read, finish, names, tops, topCount, Scan.tokens, Scan.pieces, tagsFrom]
  | piece p stop rest ih =>
    rw [Scan.tokens_piece] at hwell hopen ⊢
    rw [read_piece, piece_eq]
    cases htoken : p.token? with
    | none =>
      rw [htoken] at hwell hopen
      exact ih hcomplete hwell hopen
    | some token =>
      rw [htoken, Option.toList_some] at hwell hopen
      rw [openAfter_append] at hopen
      obtain ⟨names, hnames, hopen⟩ := Option.bind_eq_some_iff.1 hopen
      rw [tagsFrom_append hnames] at hwell
      rw [Option.toList_some, tagsFrom_append hnames, topCount_append, Option.map_some,
        Option.getD_some]
      rcases take_cases (fun tag htag => hwell tag (List.mem_append_left _ htag)) hnames stop with
        ⟨d', htake, rfl, htops⟩ | ⟨⟨fault, htake⟩, htops⟩
      · have hrest := ih hcomplete (fun tag htag => hwell tag (List.mem_append_right _ htag)) hopen
        rw [htake]
        refine hrest.trans (and_congr_right fun _ => ?_)
        rw [htops, Nat.add_assoc]
      · rw [htake]
        constructor
        · rintro ⟨tree, htree⟩
          cases htree
        · rintro ⟨_, hone⟩
          omega

end Draft

/-! ## Documents -/

/-- The first tag of a text is at the top level. -/
theorem topCount_eq_zero_iff (tokens : List Token) :
    topCount (tagsFrom 0 tokens) = 0 ↔ tagsFrom 0 tokens = [] := by
  induction tokens with
  | nil => exact ⟨fun _ => rfl, fun _ => rfl⟩
  | cons token tokens ih =>
    cases token with
    | start content => simp [tagsFrom, topCount_cons, topAt]
    | empty content => simp [tagsFrom, topCount_cons, topAt]
    | stop name => exact ih

/-- The attributes of tags that were read can be read. -/
theorem tagsWellFormed_of_reads {tags : List Tag} {nodes : List OutlineNode}
    (h : List.Forall₂ Tag.Reads tags nodes) : TagsWellFormed tags := by
  intro tag htag
  induction h with
  | nil => exact absurd htag List.not_mem_nil
  | cons hreads _ ih =>
    rcases List.mem_cons.1 htag with rfl | htag
    · exact ⟨_, hreads.attributes⟩
    · exact ih htag

/-- **Reading loses, doubles and moves no element.**  If a text is read as a tree, then the text is
made of pieces, its start tags and tags of empty elements are the lines of the tree's outline, in
the same order and with the same depths, names and attributes, and exactly one of them is at the top
level.  A text of complete pieces whose attributes can be read and whose end tags match is turned
down exactly if an element is never closed, or there is no element, or a second one at the top
level.  At every moment of reading the draft has the elements open that the tags before leave open,
so there is one to close for every end tag that matches. -/
theorem ofText_lists_tags (text : String) :
    (∀ tree, Element.ofText text = .ok tree →
      (scan text).isComplete = true ∧
      (scan text).pieces.flatMap Piece.chars = dropByteOrderMark text.toList ∧
      List.Forall₂ Tag.Reads (tagsOf text) (tree.outline 0) ∧ topCount (tagsOf text) = 1) ∧
    (∀ opened, (scan text).isComplete = true → TagsWellFormed (tagsOf text) →
      openAfter [] (scan text).tokens = some opened →
      ((∃ fault, Element.ofText text = .error fault) ↔
        opened ≠ [] ∨ tagsOf text = [] ∨ 2 ≤ topCount (tagsOf text))) ∧
    ∀ before d rest, Draft.Reached text before d rest →
      openAfter [] before = some (d.opened.map (·.name)) ∧
      ∀ name, openAfter [] (before ++ [.stop name]) ≠ none → d.opened ≠ [] := by
  refine ⟨?_, ?_, ?_⟩
  · intro tree htree
    obtain ⟨hcomplete, hopen, nodes, hnodes, houtline⟩ := Draft.outline_of_read htree
    obtain rfl : tree.outline 0 = nodes := houtline
    have hcount := (Draft.exists_read_iff (d := {}) hcomplete (tagsWellFormed_of_reads hnodes)
      hopen).1 ⟨tree, htree⟩
    refine ⟨hcomplete, flatMap_chars_scanFrom _ _ hcomplete, hnodes, ?_⟩
    exact (Nat.zero_add _).symm.trans hcount.2
  · intro opened hcomplete hwell hopen
    have hread : (∃ tree, Element.ofText text = .ok tree) ↔
        opened = [] ∧ 0 + topCount (tagsOf text) = 1 :=
      Draft.exists_read_iff (d := {}) hcomplete hwell hopen
    have hnone : topCount (tagsOf text) = 0 ↔ tagsOf text = [] := topCount_eq_zero_iff _
    have herror : (∃ fault, Element.ofText text = .error fault) ↔
        ¬ ∃ tree, Element.ofText text = .ok tree := by
      cases Element.ofText text <;> simp
    rw [herror, hread, ← hnone]
    by_cases hopened : opened = []
    · simp only [hopened, ne_eq, not_true_eq_false, true_and, false_or]
      omega
    · simp [hopened]
  · intro before d rest hreached
    have hopen := hreached.openAfter_eq
    refine ⟨hopen, fun name hstop hnone => hstop ?_⟩
    rw [openAfter_append, hopen, Draft.names, hnone]
    rfl

/-- A tree with an empty element and a value that needs an entity. -/
def gate : Element :=
  ⟨"gate", [⟨"id", "in & out"⟩],
    [⟨"bolt", [⟨"id", "upper"⟩], [⟨"spring", [], []⟩]⟩, ⟨"bolt", [], []⟩]⟩

/-- The four tags of a gate are listed, and a gate that is never closed is turned down. -/
theorem ofText_lists_tags_gate :
    Element.ofText (String.ofList gate.write) = .ok gate ∧
    List.Forall₂ Tag.Reads (tagsOf (String.ofList gate.write))
      [⟨0, "gate", [⟨"id", "in & out"⟩]⟩, ⟨1, "bolt", [⟨"id", "upper"⟩]⟩, ⟨2, "spring", []⟩,
        ⟨1, "bolt", []⟩] ∧
    ∃ fault, Element.ofText "<gate>" = .error fault := by
  have hwritable : gate.Writable := by
    simp only [gate, Element.Writable, Element.AllWritable]
    decide
  have hread := Element.ofText_of_written hwritable gate.written_write
  have hscan : scan "<gate>" = .piece (.opening "gate".toList) 6 .finish := by
    have hfront : front '<' "gate>".toList = .piece (.opening "gate".toList) [] := rfl
    refine (scanFrom_of_front hfront 0).trans ?_
    rw [scanFrom]
    rfl
  have htags : tagsOf "<gate>" = [⟨0, "gate".toList⟩] := by
    rw [tagsOf, hscan]
    rfl
  have hattributes : tagAttributes "gate".toList = .ok [] := by
    have hnone : WrittenAttributes [] [] := .nil fun _ hc => absurd hc List.not_mem_nil
    exact tagAttributes_written (show hasNameForm "gate".toList = true from rfl) hnone
      (fun _ ha => absurd ha List.not_mem_nil) List.nodup_nil
  refine ⟨hread, ((ofText_lists_tags _).1 gate hread).2.2.1, ?_⟩
  refine ((ofText_lists_tags "<gate>").2.1 ["gate"] ?_ ?_ ?_).2 (.inl (List.cons_ne_nil _ _))
  · rw [hscan]
    rfl
  · intro tag htag
    rw [htags] at htag
    exact ⟨[], List.mem_singleton.1 htag ▸ hattributes⟩
  · rw [hscan]
    rfl

end Statechart.Markup
