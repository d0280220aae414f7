import Statechart.Proofs.Source.Wording
set_option autoImplicit false

/-!
# Source: how generated lines start

Some lines of a generated module are told by how they start: those that call a function of the
logger, those that such a function starts with, and those that call the hook of an action.  Every
other line starts with fixed words that are none of these marks and do not go on to become one
(`looksUnmarked`), or it is a variant by itself.  `AllUnmarked` says so of code, for all items of a
module except its dispatch and what its logger needs.
-/

namespace Statechart.Source

/-! ## Marks -/

/-- What lines of the logger start with. -/
def loggerMarks : List String :=
  ["self.log_", "fn log_"]

/-- What lines that call the hook of an action start with. -/
def hookMark : String :=
  "self.after_hook(self.hooks.on_action_"

/-- What is left of a line without the blanks in front. -/
def bare (text : String) : String :=
  (SourceLine.ofChars text.toList).text

/-- The line starts with none of the marks. -/
def Lacks (marks : List String) (text : String) : Prop :=
  ∀ mark ∈ marks, ¬ mark.toList <+: (bare text).toList

/-- The line starts with no mark at all. -/
def Unmarked (text : String) : Prop :=
  Lacks (hookMark :: loggerMarks) text

theorem toList_bare (text : String) : (bare text).toList = text.toList.dropWhile (· = ' ') :=
  String.toList_ofList

/-- A line without blanks in front is bare. -/
theorem bare_eq {text : String} (h : text.toList.head? ≠ some ' ') : bare text = text := by
  apply String.toList_inj.1
  rw [toList_bare]
  cases hcs : text.toList with
  | nil => rfl
  | cons c cs =>
    have hc : ¬ decide (c = ' ') = true := by
      rw [decide_eq_true_iff]
      rintro rfl
      exact h (by rw [hcs]; rfl)
    exact List.dropWhile_cons_of_neg hc

/-- Whether words can stand in front of any others without a mark.  Like other properties of fixed
words this is checked by their bytes. -/
def looksLacking (marks : List String) (front : String) : Bool :=
  (bytesOf front).head?.any (· ≠ 32) && marks.all fun mark =>
    !(bytesOf mark).isPrefixOf (bytesOf front) && !(bytesOf front).isPrefixOf (bytesOf mark)

theorem bare_append {front : String} (h : (bytesOf front).head?.any (· ≠ 32) = true)
    (back : String) : bare (front ++ back) = front ++ back := by
  obtain ⟨hne, hhead⟩ := head?_of_bytesOf h
  have hcs : front.toList ≠ [] := fun hnil => hne (String.toList_inj.1 hnil)
  obtain ⟨c, cs, hcons⟩ := List.exists_cons_of_ne_nil hcs
  rw [hcons] at hhead
  refine bare_eq ?_
  rw [String.toList_append, hcons]
  exact hhead

/-- What starts otherwise than a mark and is not the start of one stays so, whatever follows. -/
theorem lacks_append {marks : List String} {front : String} (h : looksLacking marks front = true)
    (back : String) : Lacks marks (front ++ back) := by
  obtain ⟨hhead, hmarks⟩ := Bool.and_eq_true_iff.1 h
  intro mark hmark hstarts
  obtain ⟨hlonger, hshorter⟩ := Bool.and_eq_true_iff.1 (List.all_eq_true.1 hmarks mark hmark)
  rw [bare_append hhead, String.toList_append] at hstarts
  rcases List.prefix_or_prefix_of_prefix hstarts (List.prefix_append _ _) with hfront | hfront
  · rw [isPrefixOf_bytesOf hfront] at hlonger
    cases hlonger
  · rw [isPrefixOf_bytesOf hfront] at hshorter
    cases hshorter

theorem lacks_of_looksLacking {marks : List String} {text : String}
    (h : looksLacking marks text = true) : Lacks marks text := by
  have happend := lacks_append h ""
  rwa [String.append_empty] at happend

/-- All marks have a dot or a blank in them. -/
theorem unmarked_of_not_mem {text : String} (hdot : '.' ∉ text.toList) (hblank : ' ' ∉ text.toList) :
    Unmarked text := by
  have hbare : bare text = text := bare_eq fun hhead => hblank (List.mem_of_mem_head? hhead)
  intro mark hmark hstarts
  rw [hbare] at hstarts
  simp only [loggerMarks, List.mem_cons, List.not_mem_nil, or_false] at hmark
  rcases hmark with rfl | rfl | rfl
  · exact hdot (hstarts.subset (by decide))
  · exact hdot (hstarts.subset (by decide))
  · exact hblank (hstarts.subset (by decide))

/-- Whether words can stand in front of any others. -/
def looksUnmarked (front : String) : Bool :=
  looksLacking (hookMark :: loggerMarks) front

/-- Further blanks in front of a line do not mark it. -/
theorem unmarked_indented {text : String} (words : String) (htext : text = "    " ++ words)
    (h : looksUnmarked words = true) : Unmarked text := by
  have hbare : bare ("    " ++ words) = bare words := by
    apply String.toList_inj.1
    rw [toList_bare, toList_bare, String.toList_append]
    rfl
  intro mark hmark
  rw [htext, hbare]
  exact lacks_of_looksLacking h mark hmark

/-! ## Code without marks -/

/-- No line of the code has a mark. -/
def AllUnmarked (codes : List Code) : Prop :=
  ∀ text ∈ Code.textsAll codes, Unmarked text

theorem unmarked_empty : Unmarked "" :=
  unmarked_of_not_mem (by decide) (by decide)

namespace AllUnmarked

variable {codes codes' : List Code}

theorem nil : AllUnmarked [] := fun _ htext => absurd htext (by simp)

theorem of_subset (h : AllUnmarked codes) (hsub : codes' ⊆ codes) : AllUnmarked codes' :=
  fun text htext => h text (textsAll_subset hsub htext)

theorem append (h : AllUnmarked codes) (h' : AllUnmarked codes') :
    AllUnmarked (codes ++ codes') := by
  intro text htext
  rw [Code.textsAll_append, List.mem_append] at htext
  exact htext.elim (h text) (h' text)

theorem cons {code : Code} (h : AllUnmarked [code]) (hrest : AllUnmarked codes) :
    AllUnmarked (code :: codes) :=
  append h hrest

theorem line {text : String} (h : Unmarked text) : AllUnmarked [.line text] := by
  intro text' htext
  rw [Code.textsAll_cons, Code.textsAll_nil, Code.texts, List.append_nil,
    List.mem_singleton] at htext
  exact htext ▸ h

theorem lines {α : Type} {xs : List α} {f : α → String} (h : ∀ x ∈ xs, Unmarked (f x)) :
    AllUnmarked (xs.map fun x => .line (f x)) := by
  induction xs with
  | nil => exact nil
  | cons x xs ih =>
    exact cons (line (h x List.mem_cons_self)) (ih fun y hy => h y (List.mem_cons_of_mem _ hy))

theorem block {head : String} (hhead : Unmarked (head ++ " \x7b")) (h : AllUnmarked codes) :
    AllUnmarked [.block head codes] := by
  intro text htext
  rw [Code.textsAll_cons, Code.textsAll_nil, List.append_nil, Code.texts, List.mem_cons,
    List.mem_append, List.mem_singleton] at htext
  rcases htext with rfl | htext | rfl
  · exact hhead
  · exact h text htext
  · exact unmarked_of_not_mem (by decide) (by decide)

theorem spaced {groups : List (List Code)} (h : AllUnmarked groups.flatten) :
    AllUnmarked (Source.spaced groups) := by
  intro text htext
  rw [Code.textsAll_eq_flatMap] at htext
  obtain ⟨code, hcode, htext⟩ := List.mem_flatMap.1 htext
  rcases mem_spaced hcode with rfl | hcode
  · rw [List.mem_singleton.1 htext]
    exact unmarked_empty
  · refine h text ?_
    rw [Code.textsAll_eq_flatMap]
    exact List.mem_flatMap.2 ⟨code, hcode, htext⟩

/-- Code without names is checked. -/
theorem fixed (h : (Code.textsAll codes).all (fun text => text = "" || looksUnmarked text) = true) :
    AllUnmarked codes := by
  intro text htext
  rcases Bool.or_eq_true_iff.1 (List.all_eq_true.1 h text htext) with hempty | hlooks
  · rw [of_decide_eq_true hempty]
    exact unmarked_empty
  · exact lacks_of_looksLacking hlooks

end AllUnmarked

/-- A line that starts with fixed words. -/
theorem unmarked_append {front : String} (h : looksUnmarked front = true) (back : String) :
    Unmarked (front ++ back) :=
  lacks_append h back

theorem unmarked_between {front : String} (h : looksUnmarked front = true) (name back : String) :
    Unmarked (front ++ name ++ back) := by
  rw [String.append_assoc]
  exact unmarked_append h _

/-! ## The items of a module -/

theorem allUnmarked_enumDeclaration {comment name : String} (hcomment : Unmarked comment)
    {variants : List String} (h : ∀ v ∈ variants, IsIdentifier v) :
    AllUnmarked (enumDeclaration comment name variants) := by
  have hvariants : ∀ v ∈ variants, Unmarked (v ++ ",") := by
    intro v hv
    have hnot : ∀ ch, isIdentifierPart ch = false → ch ≠ ',' → ch ∉ (v ++ ",").toList := by
      intro ch hpart hcomma
      rw [String.toList_append, List.mem_append]
      exact not_or.2 ⟨(h v hv).not_mem hpart, fun hmem => hcomma (List.mem_singleton.1 hmem)⟩
    exact unmarked_of_not_mem (hnot '.' (by decide) (by decide)) (hnot ' ' (by decide) (by decide))
  exact .cons (.line hcomment) (.cons (.fixed rfl)
    (.block (unmarked_between rfl _ _) (.lines hvariants)))

theorem allUnmarked_allVariants (name : String) (variants : List String) :
    AllUnmarked [allVariants name variants] := by
  unfold allVariants
  simp only [String.append_assoc]
  exact .line (unmarked_append rfl _)

theorem allUnmarked_nameFunction {name : String} (hname : looksUnmarked name = true)
    (variants : List String) : AllUnmarked [nameFunction name variants] := by
  refine .block (unmarked_append rfl _) (.block (unmarked_append rfl _) (.lines fun v _ => ?_))
  simp only [variantPath, String.append_assoc]
  exact unmarked_append hname _

theorem allUnmarked_displayByName (name : String) : AllUnmarked [displayByName name] :=
  .block (unmarked_between rfl _ _) (.fixed rfl)

section Chart

variable {c : Chart}

theorem allUnmarked_terminalFunction (c : Chart) : AllUnmarked (terminalFunction c) := by
  refine .cons (.fixed rfl) (.block (unmarked_append rfl _) (.line ?_))
  split
  · exact lacks_of_looksLacking rfl
  · exact unmarked_between rfl _ _

theorem allUnmarked_stateItems (hn : UsableNames c) : AllUnmarked (stateItems c).flatten := by
  have hname : looksUnmarked "State" = true := rfl
  have hcomment : Unmarked ("/// States of `" ++ c.className ++ "`, in declaration order") :=
    unmarked_between rfl _ _
  have hfunctions : AllUnmarked (stateFunctions c).flatten :=
    .cons (allUnmarked_allVariants _ _) (.cons (allUnmarked_nameFunction hname _)
      ((allUnmarked_terminalFunction c).append .nil))
  exact (allUnmarked_enumDeclaration hcomment hn.state).append
    (.cons (.block (unmarked_append rfl _) (.spaced hfunctions))
      (allUnmarked_displayByName _))

/-- Some lines of the function that finds events are indented beyond their depth. -/
theorem allUnmarked_eventFromName : AllUnmarked [eventFromName] := by
  have hsearch : AllUnmarked [.line "    .into_iter()", .line "    .find(|event| event.name() == s)",
      .line "    .ok_or_else(|| StateError::UnknownEvent(s.to_string()))"] := by
    refine .cons (.line ?_) (.cons (.line ?_) (.line ?_))
    · exact unmarked_indented ".into_iter()" (by decide) rfl
    · exact unmarked_indented ".find(|event| event.name() == s)" (by decide) rfl
    · exact unmarked_indented ".ok_or_else(|| StateError::UnknownEvent(s.to_string()))"
        (by decide) rfl
  exact .block (unmarked_append rfl _) (.spaced (.cons (.fixed rfl)
    (.block (unmarked_append rfl _) (.cons (.fixed rfl) hsearch))))

theorem allUnmarked_eventItems (hn : UsableNames c) : AllUnmarked (eventItems c).flatten := by
  have hname : looksUnmarked "Event" = true := rfl
  have hcomment : Unmarked ("/// Events accepted by `" ++ c.className ++ "`") :=
    unmarked_between rfl _ _
  have hfunctions : AllUnmarked (eventFunctions c).flatten :=
    .cons (allUnmarked_allVariants _ _) (allUnmarked_nameFunction hname _)
  exact (allUnmarked_enumDeclaration hcomment hn.event).append
    (.cons (.block (unmarked_append rfl _) (.spaced hfunctions))
      (.cons (allUnmarked_displayByName _) allUnmarked_eventFromName))

theorem allUnmarked_hooksTrait (c : Chart) : AllUnmarked (hooksTrait c) := by
  have hsignature : ∀ action, Unmarked ("fn " ++ hookName action ++ "(&self, fsm: &" ++ c.className
      ++ "<Self>) -> Result<(), StateError>;") := by
    intro action
    have hwords : "fn " ++ hookName action = "fn on_action_" ++ snakeCase action :=
      append_hookName (by decide) action
    simp only [hwords, String.append_assoc]
    exact unmarked_append rfl _
  exact .cons (.line (unmarked_between rfl _ _)) (.block (unmarked_append rfl _)
    (.cons (.line (unmarked_between rfl _ _)) (.lines fun action _ => hsignature action)))

theorem allUnmarked_traitItems (c : Chart) : AllUnmarked (traitItems c).flatten := by
  obtain ⟨first, rest, hitems, hfirst, hrest⟩ : ∃ first rest : List (List Code),
      traitItems c = first ++ hooksTrait c :: rest ∧ AllUnmarked first.flatten ∧
        AllUnmarked rest.flatten :=
    ⟨[[_, _]], [[_, _], [_], [_]], rfl, .fixed rfl, .fixed rfl⟩
  rw [hitems, List.flatten_append, List.flatten_cons]
  exact hfirst.append ((allUnmarked_hooksTrait c).append hrest)

/-- What a module declares beside its machine has no marks. -/
theorem allUnmarked_declarations (hn : UsableNames c) :
    AllUnmarked (preambleItems ++ stateItems c ++ eventItems c ++ errorItems
      ++ traitItems c).flatten := by
  have hpreamble : AllUnmarked preambleItems.flatten := .fixed rfl
  have herrors : AllUnmarked errorItems.flatten := .fixed rfl
  simp only [List.flatten_append]
  exact (((hpreamble.append (allUnmarked_stateItems hn)).append
    (allUnmarked_eventItems hn)).append herrors).append (allUnmarked_traitItems c)

theorem allUnmarked_machineStruct (className : String) : AllUnmarked [machineStruct className] := by
  refine .block ?_ (.fixed rfl)
  simp only [String.append_assoc]
  exact unmarked_append rfl _

theorem allUnmarked_accessFunctions (c : Chart) : AllUnmarked (accessFunctions c).flatten := by
  obtain ⟨rest, haccess, hrest⟩ : ∃ rest : List (List Code), accessFunctions c =
      [.line ("pub const INITIAL_STATE: State = State::" ++ c.initial ++ ";")] :: rest ∧
        AllUnmarked rest.flatten :=
    ⟨[[_], [_], [_], [_], [_], [_]], rfl, .fixed rfl⟩
  rw [haccess, List.flatten_cons]
  exact .append (.line (unmarked_between rfl _ _)) hrest

end Chart

end Statechart.Source
