import Statechart.Proofs.Source.Excerpts
set_option autoImplicit false

/-!
# Source: references

What the generated machine refers to: the variants of the two enumerations, reached through their
paths, and the methods of the hooks.  `references` finds them in any text, line by line and without
knowing what the lines mean.

In code that is read back they are those that were written (`references_outline`), since neither the
indentation nor the empty lines refer to anything.  `references_machineFunctions` lists them for the
machine of a chart.
-/

namespace Statechart.Source

/-! ## References in a text -/

/-- A name that is reached through an enumeration or called as a method of the hooks, and the mark
that it stands after. -/
structure Reference where
  mark : String
  name : String
  deriving DecidableEq, Repr, Inhabited

/-- What stands before the variants of the two enumerations and before the methods of the hooks. -/
def referenceMarks : List String :=
  ["State::", "Event::", "hooks."]

/-- The references in characters. -/
def references : List Char → List Reference
  | [] => []
  | c :: cs =>
    (referenceMarks.filter (·.toList.isPrefixOf (c :: cs))).map
        (fun mark => ⟨mark, leadingName ((c :: cs).drop mark.toList.length)⟩)
      ++ references cs

theorem references_eq_nil {cs : List Char} (h : ∀ mark ∈ referenceMarks, ¬ mark.toList <:+: cs) :
    references cs = [] := by
  induction cs with
  | nil => rfl
  | cons c cs ih =>
    have hnone : referenceMarks.filter (·.toList.isPrefixOf (c :: cs)) = [] :=
      List.filter_eq_nil_iff.2 fun mark hmark hstarts =>
        h mark hmark (List.isPrefixOf_iff_prefix.1 hstarts).isInfix
    rw [references, hnone, List.map_nil, List.nil_append]
    exact ih fun mark hmark hoccurs => h mark hmark (hoccurs.trans (List.suffix_cons _ _).isInfix)

/-- A name refers to nothing by itself. -/
theorem references_name {name : String} (h : ∀ d ∈ name.toList, isIdentifierPart d = true) :
    references name.toList = [] := by
  have hmarks : ∀ mark ∈ referenceMarks, ':' ∈ mark.toList ∨ '.' ∈ mark.toList := by decide
  refine references_eq_nil fun mark hmark hoccurs => ?_
  rcases hmarks mark hmark with hmem | hmem
  · exact absurd (h _ (hoccurs.subset hmem)) (by decide)
  · exact absurd (h _ (hoccurs.subset hmem)) (by decide)

/-! Fixed words are searched by their bytes, as it is done for line ends. -/

/-- Whether bytes occur among others. -/
def occursIn (mark : List UInt8) : List UInt8 → Bool
  | [] => mark.isEmpty
  | b :: bs => mark.isPrefixOf (b :: bs) || occursIn mark bs

theorem occursIn_append (mark first rest : List UInt8) :
    occursIn mark (first ++ (mark ++ rest)) = true := by
  induction first with
  | nil =>
    have hstarts : mark.isPrefixOf (mark ++ rest) = true :=
      List.isPrefixOf_iff_prefix.2 (List.prefix_append _ _)
    rw [List.nil_append]
    generalize mark ++ rest = bytes at hstarts
    cases bytes with
    | nil => cases mark <;> simp_all [occursIn]
    | cons b bs => rw [occursIn, hstarts, Bool.true_or]
  | cons b first ih => rw [List.cons_append, occursIn, ih, Bool.or_true]

/-- Whether no mark occurs in words. -/
def refersToNothing (text : String) : Bool :=
  referenceMarks.all fun mark => !occursIn (bytesOf mark) (bytesOf text)

theorem references_of_refersToNothing {text : String} (h : refersToNothing text = true) :
    references text.toList = [] := by
  refine references_eq_nil fun mark hmark hoccurs => ?_
  obtain ⟨first, rest, htext⟩ := hoccurs
  have hbytes := occursIn_append (bytesOf mark) (first.flatMap String.utf8EncodeChar)
    (rest.flatMap String.utf8EncodeChar)
  rw [bytesOf_eq, ← List.flatMap_append, ← List.flatMap_append, ← List.append_assoc, htext,
    ← bytesOf_eq, ← bytesOf_eq] at hbytes
  have hnone := List.all_eq_true.1 h mark hmark
  rw [hbytes] at hnone
  cases hnone

/-- Characters that stand neither in a name nor in a mark. -/
def isApart (c : Char) : Bool :=
  !isIdentifierPart c && c ≠ ':' && c ≠ '.'

theorem not_mem_of_isApart {c : Char} (hc : isApart c = true) :
    isIdentifierPart c = false ∧ ∀ mark ∈ referenceMarks, c ∉ mark.toList := by
  simp only [isApart, Bool.and_eq_true, Bool.not_eq_true', decide_eq_true_eq] at hc
  obtain ⟨⟨hpart, hcolon⟩, hdot⟩ := hc
  refine ⟨hpart, fun mark hmark hmem => ?_⟩
  have hmarks : ∀ mark ∈ referenceMarks,
      mark.toList.all (fun d => isIdentifierPart d || d = ':' || d = '.') = true := by
    decide
  have hchar := List.all_eq_true.1 (hmarks mark hmark) c hmem
  simp [hpart, hcolon, hdot] at hchar

theorem isPrefixOf_append_cons {mark : List Char} {c : Char} (h : c ∉ mark)
    (front rest : List Char) : mark.isPrefixOf (front ++ c :: rest) = mark.isPrefixOf front := by
  induction mark generalizing front with
  | nil => cases front <;> rfl
  | cons m mark ih =>
    obtain ⟨hne, hmark⟩ := not_or.1 (mt List.mem_cons.2 h)
    cases front with
    | nil => simp [List.isPrefixOf, Ne.symm hne]
    | cons d front => simp only [List.cons_append, List.isPrefixOf, ih hmark]

/-- No reference goes on across a character that stands neither in a name nor in a mark. -/
theorem references_append {c : Char} (hc : isApart c = true) (front rest : List Char) :
    references (front ++ c :: rest) = references front ++ references rest := by
  obtain ⟨hpart, hmarks⟩ := not_mem_of_isApart hc
  have hfilter : ∀ cs, referenceMarks.filter (·.toList.isPrefixOf (cs ++ c :: rest)) =
      referenceMarks.filter (·.toList.isPrefixOf cs) := fun cs =>
    List.filter_congr fun mark hmark => isPrefixOf_append_cons (hmarks mark hmark) cs rest
  induction front with
  | nil =>
    have hnone := hfilter []
    rw [List.nil_append] at hnone
    rw [List.nil_append, references.eq_2, hnone]
    rfl
  | cons d front ih =>
    have hsome := hfilter (d :: front)
    rw [List.cons_append] at hsome ⊢
    rw [references, hsome, ih, references, List.append_assoc]
    congr 1
    -- the name after a mark ends before the character, or with the text before it
    refine List.map_congr_left fun mark hmark => ?_
    obtain ⟨after, hafter⟩ :=
      List.isPrefixOf_iff_prefix.1 (List.mem_filter.1 hmark).2
    have hstop : ∀ x ∈ (c :: rest).head?, isIdentifierPart x = false := by
      intro x hx
      rw [← Option.some.inj hx]
      exact hpart
    rw [← List.cons_append, ← hafter, List.append_assoc, List.drop_left, List.drop_left,
      leadingName, (takeWhile_append_of_head? hstop after).1, leadingName]

/-- Blanks refer to nothing. -/
theorem references_dropWhile (cs : List Char) :
    references (cs.dropWhile (· = ' ')) = references cs := by
  induction cs with
  | nil => rfl
  | cons c cs ih =>
    by_cases hc : c = ' '
    · have hskip : references ([] ++ ' ' :: cs) = [] ++ references cs :=
        references_append (by decide) [] cs
      rw [List.nil_append, List.nil_append] at hskip
      rw [List.dropWhile_cons_of_pos (by simp [hc]), ih, hc, hskip]
    · rw [List.dropWhile_cons_of_neg (by simp [hc])]

/-! ## References in code -/

mutual

/-- The words of a line and of the lines below it, in the order of the text. -/
def LineTree.texts : LineTree → List String
  | ⟨text, inside⟩ => text :: LineTree.textsAll inside

/-- The words of lines and of the lines below them. -/
def LineTree.textsAll : List LineTree → List String
  | [] => []
  | tree :: rest => tree.texts ++ LineTree.textsAll rest

end

/-- The references in lines and in the lines below them. -/
def LineTree.references (trees : List LineTree) : List Reference :=
  (LineTree.textsAll trees).flatMap fun text => Source.references text.toList

/-- No line is lost in an outline. -/
theorem textsAll_outline (lines : List SourceLine) :
    LineTree.textsAll (outline lines) = lines.map (·.text) := by
  induction lines using outline.induct with
  | case1 => rw [outline_nil, LineTree.textsAll]; rfl
  | case2 line rest ihInside ihAfter =>
    rw [outline_cons, LineTree.textsAll, LineTree.texts, ihInside, ihAfter, List.map_cons,
      List.cons_append, ← List.map_append, List.takeWhile_append_dropWhile]

/-- The references in code. -/
def Code.references (codes : List Code) : List Reference :=
  (Code.textsAll codes).flatMap fun text => Source.references text.toList

theorem Code.references_append (first second : List Code) :
    Code.references (first ++ second) = Code.references first ++ Code.references second := by
  rw [Code.references, Code.textsAll_append, List.flatMap_append]
  rfl

theorem references_read (line : CodeLine) :
    references line.read.text.toList = references line.text.toList := by
  obtain ⟨n, hrender⟩ := line.toList_render
  unfold CodeLine.read SourceLine.ofChars
  rw [String.toList_ofList, hrender, List.dropWhile_append_of_pos (isBlank_of_mem_replicate _),
    references_dropWhile]

/-- What code refers to is read from its outline. -/
theorem references_outline (codes : List Code) (depth : Nat) :
    LineTree.references (outline (Code.readBack depth codes)) = Code.references codes := by
  have hempty : ∀ lines : List SourceLine,
      (lines.filter (·.text ≠ "")).flatMap (fun line => references line.text.toList) =
        lines.flatMap fun line => references line.text.toList := by
    intro lines
    induction lines with
    | nil => rfl
    | cons line lines ih =>
      by_cases htext : line.text = ""
      · rw [List.filter_cons_of_neg (by simp [htext]), ih, List.flatMap_cons, htext]
        rfl
      · rw [List.filter_cons_of_pos (by simp [htext]), List.flatMap_cons, ih, List.flatMap_cons]
  unfold LineTree.references Code.references
  rw [textsAll_outline, ← Code.map_text_linesAll depth, List.flatMap_map, List.flatMap_map]
  unfold Code.readBack
  rw [hempty, List.flatMap_map]
  exact List.flatMap_congr fun line _ => references_read line

theorem Code.references_line (text : String) :
    Code.references [.line text] = Source.references text.toList := by
  rw [Code.references, Code.textsAll_cons, Code.textsAll_nil, Code.texts, List.append_nil,
    List.flatMap_singleton]

/-- A block refers to what its first line and its body refer to. -/
theorem Code.references_block (head : String) (body : List Code) :
    Code.references [.block head body] =
      Source.references (head ++ " \x7b").toList ++ Code.references body := by
  have hbrace : Source.references ("\x7d" ++ "").toList = [] := rfl
  rw [Code.references, Code.textsAll_cons, Code.textsAll_nil, Code.texts, List.append_nil,
    List.flatMap_cons, List.flatMap_append, List.flatMap_singleton, hbrace, List.append_nil]
  rfl

/-- Code of fixed words in which no mark occurs refers to nothing. -/
theorem Code.references_eq_nil {codes : List Code}
    (h : (Code.textsAll codes).all refersToNothing = true) : Code.references codes = [] :=
  List.flatMap_eq_nil_iff.2 fun text htext =>
    references_of_refersToNothing (List.all_eq_true.1 h text htext)

/-! ## Lines with names -/

/-- Words before a name that end with a path, and the mark that the path ends with. -/
structure ReferenceFrame where
  words : String
  front : String
  path : String
  mark : String
  deriving DecidableEq, Repr, Inhabited

/-- The words before the names that the machine refers to. -/
def referenceFrames : List ReferenceFrame :=
  [⟨"(State::", "(", "State::", "State::"⟩,
    ⟨", Event::", ", ", "Event::", "Event::"⟩,
    ⟨"Event::", "", "Event::", "Event::"⟩,
    ⟨"pub const INITIAL_STATE: State = State::", "pub const INITIAL_STATE: State = ", "State::",
      "State::"⟩,
    ⟨"self.after_hook(self.hooks.", "self.after_hook(", "self.hooks.", "hooks."⟩,
    ⟨"self.transition_to_state(State::", "self.transition_to_state(", "State::", "State::"⟩]

theorem references_path : ∀ frame ∈ referenceFrames, ∀ rest,
    references (frame.path.toList ++ rest) =
      ⟨frame.mark, leadingName rest⟩ :: references rest := by
  simp only [referenceFrames, List.forall_mem_cons, List.not_mem_nil, false_implies, implies_true,
    and_true]
  exact ⟨fun _ => rfl, fun _ => rfl, fun _ => rfl, fun _ => rfl, fun _ => rfl, fun _ => rfl⟩

/-- What stands before the paths ends apart from them, and refers to nothing. -/
theorem referenceFrames_front : ∀ frame ∈ referenceFrames,
    frame.words = frame.front ++ frame.path ∧
      frame.front.toList.getLast?.all isApart = true ∧ references frame.front.toList = [] := by
  decide +kernel

/-- Words that end apart from what follows are read on their own. -/
theorem references_append_of_getLast? {front : List Char}
    (h : front.getLast?.all isApart = true) (rest : List Char) :
    references (front ++ rest) = references front ++ references rest := by
  cases hlast : front.getLast? with
  | none =>
    rw [List.getLast?_eq_none_iff.1 hlast]
    rfl
  | some c =>
    obtain ⟨first, rfl⟩ := List.getLast?_eq_some_iff.1 hlast
    rw [hlast] at h
    rw [List.append_assoc, List.singleton_append, references_append h, references_append h]
    exact congrArg (· ++ references rest) (List.append_nil _).symm

/-- Up to a character that stands apart, a name is read on its own. -/
theorem references_append_name {name : String}
    (hname : ∀ d ∈ name.toList, isIdentifierPart d = true) {rest : List Char}
    (hrest : rest.head?.any isApart = true) :
    leadingName (name.toList ++ rest) = name ∧
      references (name.toList ++ rest) = references rest := by
  cases rest with
  | nil => cases hrest
  | cons c rest =>
    have hc : isApart c = true := hrest
    have hskip := references_append hc [] rest
    rw [List.nil_append] at hskip
    rw [references_append hc, references_name hname, hskip]
    exact ⟨leadingName_append hname (not_mem_of_isApart hc).1 rest, rfl⟩

/-- A name is referred to if it stands in a frame. -/
theorem references_frame {frame : ReferenceFrame} (hframe : frame ∈ referenceFrames)
    {name : String} (hname : ∀ d ∈ name.toList, isIdentifierPart d = true) (rest : List Char)
    (hrest : rest.head?.any isApart = true) :
    references (frame.words.toList ++ (name.toList ++ rest)) =
      ⟨frame.mark, name⟩ :: references rest := by
  obtain ⟨hwords, hlast, hnothing⟩ := referenceFrames_front frame hframe
  obtain ⟨hlead, hskip⟩ := references_append_name hname hrest
  rw [hwords, String.toList_append, List.append_assoc, references_append_of_getLast? hlast,
    hnothing, List.nil_append, references_path frame hframe, hlead, hskip]

theorem references_localHead {id event : String} (hid : IsIdentifier id)
    (hevent : IsIdentifier event) :
    references (localPattern id event ++ " => \x7b").toList =
      [⟨"State::", id⟩, ⟨"Event::", event⟩] := by
  have hstate : ⟨"(State::", "(", "State::", "State::"⟩ ∈ referenceFrames := by
    simp [referenceFrames]
  have hcomma : ⟨", Event::", ", ", "Event::", "Event::"⟩ ∈ referenceFrames := by
    simp [referenceFrames]
  have hfirst := references_frame hstate hid.isIdentifierPart
    (", Event::".toList ++ (event.toList ++ ") => \x7b".toList)) rfl
  have hsecond := references_frame hcomma hevent.isIdentifierPart ") => \x7b".toList rfl
  simp only [localPattern, String.toList_append, List.append_assoc]
  exact hfirst.trans (congrArg _ hsecond)

theorem references_baseHead {event : String} (hevent : IsIdentifier event) :
    references (basePattern event ++ " => \x7b").toList = [⟨"Event::", event⟩] := by
  have hframe : ⟨"Event::", "", "Event::", "Event::"⟩ ∈ referenceFrames := by
    simp [referenceFrames]
  simp only [basePattern, String.toList_append, List.append_assoc]
  exact references_frame hframe hevent.isIdentifierPart " => \x7b".toList rfl

theorem references_initial {id : String} (hid : IsIdentifier id) :
    references ("pub const INITIAL_STATE: State = State::" ++ id ++ ";").toList =
      [⟨"State::", id⟩] := by
  have hframe : ⟨"pub const INITIAL_STATE: State = State::", "pub const INITIAL_STATE: State = ",
      "State::", "State::"⟩ ∈ referenceFrames := by
    simp [referenceFrames]
  simp only [String.toList_append, List.append_assoc]
  exact references_frame hframe hid.isIdentifierPart ";".toList rfl

theorem references_callHook {action : String} (h : IsIdentifier action) :
    references (DispatchStep.callHook action).text.toList = [⟨"hooks.", hookName action⟩] := by
  have htext : (DispatchStep.callHook action).text =
      "self.after_hook(self.hooks." ++ hookName action ++ "(self))?;" := rfl
  have hframe : ⟨"self.after_hook(self.hooks.", "self.after_hook(", "self.hooks.", "hooks."⟩ ∈
      referenceFrames := by
    simp [referenceFrames]
  rw [htext, String.toList_append, String.toList_append, List.append_assoc]
  exact references_frame hframe (isIdentifierPart_of_mem_hookName h) "(self))?;".toList rfl

theorem references_enter {target : String} (h : IsIdentifier target) :
    references (DispatchStep.enter target).text.toList = [⟨"State::", target⟩] := by
  have htext : (DispatchStep.enter target).text =
      "self.transition_to_state(State::" ++ target ++ ")" := rfl
  have hframe : ⟨"self.transition_to_state(State::", "self.transition_to_state(", "State::",
      "State::"⟩ ∈ referenceFrames := by
    simp [referenceFrames]
  rw [htext, String.toList_append, String.toList_append, List.append_assoc]
  exact references_frame hframe h.isIdentifierPart ")".toList rfl

/-! ## Lines without names

They are checked all at once, in the functions of a machine without transitions. -/

/-- A chart without transitions. -/
def bareChart (base? : Option String) : Chart where
  className := ""
  package? := none
  initial := ""
  base? := base?
  debug := true
  states := [⟨"", []⟩]

/-- The functions of a machine without transitions that call no hook, and the lines that tell the
logger about events and actions. -/
def bareFunctions : List Code :=
  (accessFunctions (bareChart none)).tail.flatten
    ++ [pushFunction (bareChart none), baseFunction (bareChart none),
      baseFunction (bareChart (some "")), afterHookFunction]
    ++ logFunctions.flatten
    ++ [.line "self.log_event(event);", .line "self.log_action(\""]

theorem references_bareFunctions : ∀ code ∈ bareFunctions, Code.references [code] = [] := by
  have hwords : (Code.textsAll bareFunctions).all refersToNothing = true := by decide +kernel
  intro code hcode
  refine Code.references_eq_nil (List.all_eq_true.2 fun text htext => ?_)
  rw [Code.textsAll_cons, Code.textsAll_nil, List.append_nil] at htext
  refine List.all_eq_true.1 hwords text ?_
  rw [Code.textsAll_eq_flatMap]
  exact List.mem_flatMap.2 ⟨code, hcode, htext⟩

/-- Lines in which no mark occurs can be left out. -/
theorem Code.references_eq_filter (codes : List Code) :
    Code.references codes =
      ((Code.textsAll codes).filter (!refersToNothing ·)).flatMap
        fun text => Source.references text.toList := by
  unfold Code.references
  induction Code.textsAll codes with
  | nil => rfl
  | cons text texts ih =>
    cases htext : refersToNothing text with
    | true =>
      rw [List.flatMap_cons, references_of_refersToNothing htext, ih,
        List.filter_cons_of_neg (by simp [htext])]
      rfl
    | false => rw [List.flatMap_cons, ih, List.filter_cons_of_pos (by simp [htext]),
        List.flatMap_cons]

/-- The functions that start a machine and enter a state call the method for changes of state. -/
theorem references_stateChange :
    Code.references [startFunction] = [⟨"hooks.", "on_state_change"⟩] ∧
      ∀ debug, Code.references [enterFunction debug] = [⟨"hooks.", "on_state_change"⟩] := by
  simp only [Code.references_eq_filter]
  decide +kernel

/-! ## References in the machine -/

/-- What the steps for an action refer to. -/
theorem references_actionSteps {action : String} (h : IsIdentifier action) (debug : Bool) :
    (actionSteps debug action).flatMap (fun step => references step.text.toList) =
      [⟨"hooks.", hookName action⟩] := by
  have hcall := references_callHook h
  have hlog : references (DispatchStep.logAction action).text.toList = [] := by
    have htext : (DispatchStep.logAction action).text =
        "self.log_action(\"" ++ action ++ "\");" := rfl
    have hwords := references_bareFunctions (.line "self.log_action(\"") (by simp [bareFunctions])
    have hskip := (references_append_name h.isIdentifierPart
      (rfl : "\");".toList.head?.any isApart = true)).2
    rw [Code.references_line] at hwords
    rw [htext, String.toList_append, String.toList_append, List.append_assoc,
      references_append_of_getLast? rfl, hwords, hskip]
    rfl
  cases debug with
  | true => simp [actionSteps, hlog, hcall]
  | false => simp [actionSteps, hcall]

/-- What carrying out a transition refers to. -/
def transitionReferences (t : Transition) : List Reference :=
  (t.actions.map fun action => ⟨"hooks.", hookName action⟩) ++ [⟨"State::", t.target⟩]

/-- A function with a match refers to what the arms refer to, if the same function without arms
refers to nothing. -/
theorem references_match {head subject : String} {front rest : List Code}
    (h : Code.references [.block head (front ++ [.block subject ([] ++ rest)])] = [])
    (arms : List Code) :
    Code.references [.block head (front ++ [.block subject (arms ++ rest)])] =
      Code.references arms := by
  simp only [Code.references_block, Code.references_append, List.append_eq_nil_iff] at h
  obtain ⟨hhead, hfront, hsubject, _, hrest⟩ := h
  rw [Code.references_block, Code.references_append, Code.references_block, Code.references_append,
    hhead, hfront, hsubject, hrest, List.append_nil, List.nil_append, List.nil_append,
    List.nil_append]

section Machine

variable {c : Chart} (hc : c.WellFormed) (hn : UsableNames c)

include hc hn

theorem references_dispatchSteps {t : Transition} (ht : t ∈ c.transitions) (debug : Bool) :
    (dispatchSteps debug t).flatMap (fun step => references step.text.toList) =
      transitionReferences t := by
  have hactions : (t.actions.flatMap (actionSteps debug)).flatMap
      (fun step => references step.text.toList) =
        t.actions.map fun action => ⟨"hooks.", hookName action⟩ := by
    rw [List.flatMap_assoc, List.map_eq_flatMap]
    refine List.flatMap_congr fun action haction => ?_
    exact references_actionSteps (hn.action action (Chart.mem_actions.2 ⟨t, ht, haction⟩)) debug
  have henter := references_enter (hn.state _ (hc.target_mem t ht))
  have hevent := references_bareFunctions (.line DispatchStep.logEvent.text)
    (List.mem_append_right _ List.mem_cons_self)
  rw [Code.references_line] at hevent
  unfold dispatchSteps transitionReferences
  rw [List.flatMap_append, List.flatMap_append, hactions, List.flatMap_singleton, henter]
  cases debug with
  | true => simp [hevent]
  | false => simp

/-- What arms refer to. -/
theorem references_rowArms {rows : List (String × Transition)}
    (hrows : ∀ row ∈ rows, row.2 ∈ c.transitions) (debug : Bool) :
    Code.references (rowArms debug rows) =
      rows.flatMap fun row => references (row.1 ++ " => \x7b").toList
        ++ transitionReferences row.2 := by
  have hbrace : references "\x7d".toList = [] := rfl
  unfold Code.references rowArms
  rw [Code.textsAll_eq_flatMap, List.flatMap_map, List.flatMap_assoc]
  refine List.flatMap_congr fun row hrow => ?_
  rw [texts_arm, List.flatMap_cons, List.flatMap_append, List.flatMap_map,
    references_dispatchSteps hc hn (hrows row hrow), List.flatMap_singleton, hbrace,
    List.append_nil]

theorem references_pushFunction :
    Code.references [pushFunction c] =
      c.states.flatMap fun s => (firstPerEvent s.transitions).flatMap fun t =>
        [⟨"State::", s.id⟩, ⟨"Event::", t.event⟩] ++ transitionReferences t := by
  have hbare : Code.references [pushFunction (bareChart none)] = [] :=
    references_bareFunctions _ (by simp [bareFunctions])
  obtain ⟨front, rest, hpush, hfixed⟩ : ∃ front rest,
      pushFunction c = .block pushSignature (front
        ++ [.block "match (state, event)" (c.states.flatMap (localArms c.debug) ++ rest)]) ∧
      pushFunction (bareChart none) = .block pushSignature
        (front ++ [.block "match (state, event)" ([] ++ rest)]) :=
    ⟨[_, _, _, _, _], [_, _], rfl, rfl⟩
  have hrows : ∀ row ∈ localRows c, row.2 ∈ c.transitions := fun row hrow =>
    (armText_of_mem_localRows hn row hrow).2
  rw [hpush, references_match (hfixed ▸ hbare), flatMap_localArms,
    references_rowArms hc hn hrows, localRows, List.flatMap_assoc]
  refine List.flatMap_congr fun s hs => ?_
  rw [List.flatMap_map]
  refine List.flatMap_congr fun t ht => ?_
  have htmem : t ∈ c.transitions :=
    Chart.mem_transitions.2 ⟨s, hs, List.mem_of_find?_eq_some (mem_firstPerEvent.1 ht)⟩
  rw [references_localHead (hn.state _ (List.mem_map_of_mem hs)) (hn.event_of_mem htmem)]

theorem references_baseFunction :
    Code.references [baseFunction c] =
      c.baseState?.toList.flatMap fun s => (firstPerEvent s.transitions).flatMap fun t =>
        ⟨"Event::", t.event⟩ :: transitionReferences t := by
  cases hbase : c.baseState? with
  | none =>
    have hfun : baseFunction c = baseFunction (bareChart none) := by
      unfold baseFunction
      rw [hbase]
      rfl
    rw [hfun, references_bareFunctions _ (by simp [bareFunctions])]
    rfl
  | some base =>
    have hmem : base ∈ c.states := Chart.mem_states_of_baseState? hbase
    have hbare : Code.references [baseFunction (bareChart (some ""))] = [] :=
      references_bareFunctions _ (by simp [bareFunctions])
    obtain ⟨rest, hfun, hfixed⟩ : ∃ rest,
        baseFunction c = .block fallbackSignature
          ([] ++ [.block "match event" (rowArms c.debug (baseRows base) ++ rest)]) ∧
        baseFunction (bareChart (some "")) = .block fallbackSignature
          ([] ++ [.block "match event" ([] ++ rest)]) := by
      unfold baseFunction
      rw [hbase, ← baseArms_eq]
      exact ⟨[_, _], rfl, rfl⟩
    have hrows : ∀ row ∈ baseRows base, row.2 ∈ c.transitions := fun row hrow =>
      (armText_of_mem_baseRows hn hmem row hrow).2
    rw [hfun, references_match (hfixed ▸ hbare), references_rowArms hc hn hrows, baseRows,
      List.flatMap_map, Option.toList_some, List.flatMap_singleton]
    refine List.flatMap_congr fun t ht => ?_
    have htmem : t ∈ c.transitions :=
      Chart.mem_transitions.2 ⟨base, hmem, List.mem_of_find?_eq_some (mem_firstPerEvent.1 ht)⟩
    rw [references_baseHead (hn.event_of_mem htmem)]
    rfl

/-- **What the machine refers to.**  Beside the initial state and the method for changes of state,
these are the states, events and hooks of the transitions that have an arm. -/
theorem references_machineFunctions :
    Code.references (machineFunctions c).flatten =
      [⟨"State::", c.initial⟩, ⟨"hooks.", "on_state_change"⟩]
        ++ (c.states.flatMap fun s => (firstPerEvent s.transitions).flatMap fun t =>
          [⟨"State::", s.id⟩, ⟨"Event::", t.event⟩] ++ transitionReferences t)
        ++ (c.baseState?.toList.flatMap fun s => (firstPerEvent s.transitions).flatMap fun t =>
          ⟨"Event::", t.event⟩ :: transitionReferences t)
        ++ [⟨"hooks.", "on_state_change"⟩] := by
  have hbare : ∀ codes ⊆ bareFunctions, Code.references codes = [] := by
    intro codes hsub
    induction codes with
    | nil => rfl
    | cons code codes ih =>
      obtain ⟨hcode, hcodes⟩ := List.cons_subset.1 hsub
      rw [← List.singleton_append, Code.references_append, references_bareFunctions code hcode,
        ih hcodes]
      rfl
  have haccess : Code.references (accessFunctions c).tail.flatten = [] :=
    hbare (accessFunctions (bareChart none)).tail.flatten (by simp [bareFunctions])
  have hafter : Code.references [afterHookFunction] = [] := hbare _ (by simp [bareFunctions])
  have hlog : Code.references (if c.debug then logFunctions else []).flatten = [] := by
    cases c.debug with
    | true => exact hbare logFunctions.flatten fun _ hcode =>
        List.mem_append_left _ (List.mem_append_right _ hcode)
    | false => rfl
  have hgroups : (machineFunctions c).flatten =
      [.line ("pub const INITIAL_STATE: State = State::" ++ c.initial ++ ";")]
        ++ (accessFunctions c).tail.flatten ++ [startFunction] ++ [pushFunction c]
        ++ [baseFunction c] ++ [enterFunction c.debug] ++ [afterHookFunction]
        ++ (if c.debug then logFunctions else []).flatten := by
    simp [machineFunctions, accessFunctions]
  simp only [hgroups, Code.references_append, Code.references_line,
    references_initial (hn.state _ hc.initial_mem), haccess, references_stateChange.1,
    references_pushFunction hc hn, references_baseFunction hc hn, references_stateChange.2,
    hafter, hlog, List.append_nil]
  rfl

end Machine

end Statechart.Source
