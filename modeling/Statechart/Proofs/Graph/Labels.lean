import Mathlib.Data.List.Induction
import Mathlib.Data.List.TakeWhile
import Statechart.Proofs.Graph.Drawing
import Statechart.Proofs.Text.Lines
set_option autoImplicit false

/-!
# Names in drawings

Names are written into a drawing as they stand.  A line feed in a name divides a line, and a quote
in a label ends the label early unless a backslash escapes it; at the end of a label, a backslash
takes the closing quote away instead.  `lexicallySound_iff` says that nothing else goes wrong: the
drawing of a chart has one line for each of its statements, with labels that end where they should,
exactly if its names are free of these.

Only the names themselves matter, not how they meet in a label: the separators between them leave no
backslash open (`escapedAfter_actionLabel`).
-/

namespace Statechart

open Statechart.Text

/-! ## Quoted texts -/

/-- Whether the character after a text is escaped, given whether its first character is. -/
def escapedAfter (escaped : Bool) : List Char → Bool
  | [] => escaped
  | c :: cs => escapedAfter (!escaped && c = '\\') cs

/-- What stands before and after the quote that ends a quoted text, which is the first one that is
not escaped. -/
def cutQuoted (escaped : Bool) : List Char → Option (List Char × List Char)
  | [] => none
  | c :: cs =>
    if !escaped && c = '\x22' then some ([], cs)
    else (cutQuoted (!escaped && c = '\\') cs).map fun parts => (c :: parts.1, parts.2)

/-- Every quote of a text is escaped. -/
def QuotesEscaped (escaped : Bool) : List Char → Prop
  | [] => True
  | c :: cs => (c = '\x22' → escaped = true) ∧ QuotesEscaped (!escaped && c = '\\') cs

theorem escapedAfter_append (escaped : Bool) (u v : List Char) :
    escapedAfter escaped (u ++ v) = escapedAfter (escapedAfter escaped u) v := by
  induction u generalizing escaped with
  | nil => rfl
  | cons c u ih => exact ih _

theorem quotesEscaped_append {escaped : Bool} {u v : List Char} :
    QuotesEscaped escaped (u ++ v) ↔
      QuotesEscaped escaped u ∧ QuotesEscaped (escapedAfter escaped u) v := by
  induction u generalizing escaped with
  | nil => simp [QuotesEscaped, escapedAfter]
  | cons c u ih => simp [QuotesEscaped, escapedAfter, ih, and_assoc]

/-- A quoted text ends at its closing quote exactly if the quotes in it are escaped and the closing
one is not. -/
theorem cutQuoted_append_iff {escaped : Bool} {u v : List Char} :
    cutQuoted escaped (u ++ '\x22' :: v) = some (u, v) ↔
      QuotesEscaped escaped u ∧ escapedAfter escaped u = false := by
  induction u generalizing escaped with
  | nil => cases escaped <;> simp [cutQuoted, QuotesEscaped, escapedAfter]
  | cons c u ih =>
    rw [List.cons_append, cutQuoted, QuotesEscaped, escapedAfter]
    by_cases hend : (!escaped && c = '\x22') = true
    · rw [if_pos hend]
      grind
    · rw [if_neg hend, and_assoc, ← ih]
      have hquote : c = '\x22' → escaped = true := by grind
      rw [and_iff_right hquote]
      simp [Option.map_eq_some_iff]

/-! ## Runs of backslashes -/

/-- A text ends with a backslash that is not itself escaped. -/
def EndsEscaping (text : List Char) : Prop :=
  (text.reverse.takeWhile (· = '\\')).length % 2 = 1

theorem escapedAfter_eq_true_iff (text : List Char) :
    escapedAfter false text = true ↔ EndsEscaping text := by
  induction text using List.reverseRecOn with
  | nil => simp [escapedAfter, EndsEscaping]
  | append_singleton text c ih =>
    rw [escapedAfter_append]
    unfold EndsEscaping at ih ⊢
    rw [List.reverse_append]
    by_cases hc : c = '\\'
    · subst hc
      simp only [escapedAfter, List.reverse_singleton, List.singleton_append]
      rw [List.takeWhile_cons_of_pos (by simp), List.length_cons]
      cases h : escapedAfter false text <;> simp [h] at ih ⊢ <;> omega
    · simp [escapedAfter, hc]

/-- The quotes of a text are escaped exactly if each follows an odd run of backslashes. -/
theorem quotesEscaped_iff {text : List Char} :
    QuotesEscaped false text ↔
      ∀ before after, text = before ++ '\x22' :: after → EndsEscaping before := by
  constructor
  · rintro h before after rfl
    obtain ⟨_, hquote, _⟩ := quotesEscaped_append.1 h
    exact (escapedAfter_eq_true_iff before).1 (hquote rfl)
  · intro h
    induction text using List.reverseRecOn with
    | nil => trivial
    | append_singleton text c ih =>
      refine quotesEscaped_append.2 ⟨ih ?_, ?_, trivial⟩
      · rintro before after rfl
        exact h before (after ++ [c]) (by simp)
      · rintro rfl
        exact (escapedAfter_eq_true_iff text).2 (h text [] rfl)

theorem not_endsEscaping {text : List Char} (h : '\\' ∉ text) : ¬ EndsEscaping text := by
  have hrun : text.reverse.takeWhile (· = '\\') = [] := by
    rw [List.takeWhile_eq_nil_iff]
    grind
  simp [EndsEscaping, hrun]

/-! ## Labels -/

namespace Transition

/-- Names with separators between them have their quotes escaped exactly if each of them has. -/
theorem quotesEscaped_intercalate {actions : List String} :
    QuotesEscaped false (String.intercalate ",\\n" actions).toList ↔
      ∀ action ∈ actions, QuotesEscaped false action.toList := by
  have hseparator : ∀ escaped, QuotesEscaped escaped ",\\n".toList := by
    intro escaped
    simp [QuotesEscaped]
  have hafter : ∀ escaped, escapedAfter escaped ",\\n".toList = false := by
    intro escaped
    simp [escapedAfter]
  induction actions with
  | nil => simp [QuotesEscaped]
  | cons action actions ih =>
    cases actions with
    | nil => simp
    | cons next actions =>
      rw [String.intercalate_cons_cons, String.toList_append, String.toList_append,
        quotesEscaped_append, quotesEscaped_append, escapedAfter_append, hafter,
        and_iff_left (hseparator _), List.forall_mem_cons]
      exact and_congr_right fun _ => ih

/-- The part of a label after the event leaves no backslash open. -/
theorem escapedAfter_actionLabel {actions : List String} (h : actions ≠ []) (escaped : Bool) :
    escapedAfter escaped (actionLabel actions).toList = false := by
  have hclose : ∀ escaped, escapedAfter escaped ")".toList = false := by
    intro escaped
    simp [escapedAfter]
  rw [actionLabel, if_neg (by simpa using h), String.toList_append, escapedAfter_append, hclose]

theorem quotesEscaped_actionLabel {actions : List String} (escaped : Bool) :
    QuotesEscaped escaped (actionLabel actions).toList ↔
      ∀ action ∈ actions, QuotesEscaped false action.toList := by
  have hopen : QuotesEscaped escaped "\\n(".toList := by simp [QuotesEscaped]
  have hafter : escapedAfter escaped "\\n(".toList = false := by simp [escapedAfter]
  have hclose : ∀ escaped, QuotesEscaped escaped ")".toList := by
    intro escaped
    simp [QuotesEscaped]
  cases actions with
  | nil => simp [actionLabel, QuotesEscaped]
  | cons action actions =>
    rw [actionLabel, if_neg (by simp), String.toList_append, String.toList_append,
      quotesEscaped_append, quotesEscaped_append, hafter, quotesEscaped_intercalate,
      and_iff_left (hclose _), and_iff_right hopen]

/-- What the names of a transition must be like for its label to end where it should: a quote
follows an odd run of backslashes, and such a run does not end the event if it ends the label. -/
structure Quotable (t : Transition) : Prop where
  quote : ∀ name ∈ t.event :: t.actions, ∀ before after,
    name.toList = before ++ '\x22' :: after → EndsEscaping before
  closing : t.actions = [] → ¬ EndsEscaping t.event.toList

/-- A label ends at its closing quote exactly if the names in it can be quoted. -/
theorem cutQuoted_label_iff (t : Transition) (rest : List Char) :
    cutQuoted false (t.label.toList ++ '\x22' :: rest) = some (t.label.toList, rest) ↔
      t.Quotable := by
  have hquotes : QuotesEscaped false t.label.toList ↔
      ∀ name ∈ t.event :: t.actions, QuotesEscaped false name.toList := by
    rw [label_eq, String.toList_append, quotesEscaped_append, quotesEscaped_actionLabel,
      List.forall_mem_cons]
  have hclosing : escapedAfter false t.label.toList = false ↔
      (t.actions = [] → ¬ EndsEscaping t.event.toList) := by
    rw [label_eq, String.toList_append, escapedAfter_append, ← escapedAfter_eq_true_iff]
    by_cases hactions : t.actions = []
    · simp [hactions, actionLabel, escapedAfter]
    · simp [hactions, escapedAfter_actionLabel hactions]
  rw [cutQuoted_append_iff, hquotes, hclosing]
  simp only [quotesEscaped_iff]
  exact ⟨fun h => ⟨h.1, h.2⟩, fun h => ⟨h.quote, h.closing⟩⟩

/-- Identifiers can be quoted. -/
theorem Named.quotable {t : Transition} (h : t.Named) : t.Quotable where
  quote := by
    have hnames : ∀ name ∈ t.event :: t.actions, Source.IsIdentifier name :=
      List.forall_mem_cons.2 ⟨h.event, h.action⟩
    intro name hname before after heq
    refine absurd ?_ ((hnames name hname).not_mem (c := '\x22') (by decide))
    rw [heq]
    simp
  closing := fun _ => not_endsEscaping (h.event.not_mem (by decide))

end Transition

/-! ## Statements -/

namespace DrawStatement

/-- What a statement shows. -/
def shown : DrawStatement → List String
  | .node id _ => [id]
  | .edge source target label => [source, target, label]
  | .baseNode id shape color => [id, shape, color]

/-- No line end stands in a statement exactly if none stands in what it shows. -/
theorem newline_not_mem_text_iff (p : DrawStatement) :
    '\n' ∉ p.text.toList ↔ ∀ name ∈ p.shown, '\n' ∉ name.toList := by
  cases p with
  | node id shape => cases shape <;> simp [text, NodeShape.name, shown]
  | edge source target label => simp [text, shown]
  | baseNode id shape color => simp [text, shown]

/-- The text of an edge up to the quote that opens its label. -/
def labelStart (source target : String) : String :=
  source ++ " -> " ++ target ++ " [fontsize=10, label=\""

theorem drop_text_edge (source target label : String) :
    (edge source target label).text.toList.drop (labelStart source target).length =
      label.toList ++ '\x22' :: [']', ';'] := by
  have htext : (edge source target label).text.toList =
      (labelStart source target).toList ++ (label.toList ++ '\x22' :: [']', ';']) := by
    simp [text, labelStart]
  rw [htext, ← String.length_toList, List.drop_left]

end DrawStatement

/-! ## Lines -/

/-- Lines that are written one after the other are read back exactly if no line end stands in
them. -/
theorem lines_flatMap_iff {ls : List (List Char)} :
    lines (ls.flatMap (· ++ ['\n'])) = ls ↔ ∀ line ∈ ls, '\n' ∉ line := by
  constructor
  · intro h line hline
    rw [← h] at hline
    exact not_mem_of_mem_lines hline
  · intro h
    induction ls with
    | nil => rfl
    | cons line ls ih =>
      obtain ⟨hline, hrest⟩ := List.forall_mem_cons.1 h
      rw [List.flatMap_cons, List.append_assoc]
      exact (lines_append_of_not_mem hline _).trans (congrArg _ (ih hrest))

theorem length_pictureStatements (style : GraphStyle) (ds : List DrawnState)
    (base? : Option State) : (pictureStatements style ds base?).length =
      ds.length + ((ds.map (·.state) ++ base?.toList).flatMap Chart.drawTransitions).length +
        base?.toList.length := by
  induction ds with
  | nil => cases base? <;> simp [pictureStatements, baseStatements]
  | cons d ds ih =>
    rw [pictureStatements_cons]
    simp only [List.length_cons, List.length_append, List.map_cons, List.cons_append,
      List.flatMap_cons, ih]
    omega

namespace Chart

variable {c : Chart} {style : GraphStyle}

/-- A drawing has a line for its start and one for its end, one for each state, and one for each
transition. -/
theorem WellFormed.length_dotLines (hc : c.WellFormed) (style : GraphStyle) :
    (c.dotLines style).length =
      2 + (c.states.filter (!c.isBase ·.id)).length + c.transitions.length +
        c.baseState?.toList.length := by
  have hstates : c.picture.ordinary.length = (c.states.filter (!c.isBase ·.id)).length :=
    List.length_map _
  have hedges : (c.states.flatMap drawTransitions).length = c.transitions.length := by
    simp [transitions, drawTransitions, List.length_flatMap]
  have hdrawing : (c.drawing style).length = (c.states.filter (!c.isBase ·.id)).length +
      c.transitions.length + c.baseState?.toList.length := by
    rw [drawing_eq, length_pictureStatements, (hc.states_perm.flatMap_right _).length_eq, hedges,
      hstates]
    rfl
  simp only [dotLines, List.length_append, List.length_map, List.length_singleton, hdrawing]
  omega

theorem toList_dot?_eq_flatMap {text : String} (h : c.dot? style = some text) :
    text.toList = ((c.dotLines style).map String.toList).flatMap (· ++ ['\n']) := by
  unfold dot? at h
  split at h
  · cases h
    simp [String.toList_join, List.flatMap_map]
  · cases h

/-- What the names of a chart must be like to be drawn: they have no line feed, and the labels of
the transitions end where they should. -/
structure WritableNames (c : Chart) : Prop where
  className : '\n' ∉ c.className.toList
  state : ∀ id ∈ c.stateIds, '\n' ∉ id.toList
  event : ∀ event ∈ c.events, '\n' ∉ event.toList
  action : ∀ action ∈ c.actions, '\n' ∉ action.toList
  quotable : ∀ t ∈ c.transitions, t.Quotable

theorem HasIdentifiers.writableNames (h : c.HasIdentifiers) : c.WritableNames where
  className := h.className.not_mem (by decide)
  state := fun id hid => (h.state id hid).not_mem (by decide)
  event := fun event hevent => (h.event event hevent).not_mem (by decide)
  action := fun action haction => (h.action action haction).not_mem (by decide)
  quotable := fun _ ht => (h.transition_named ht).quotable

/-- The statements of a drawing in the usual style have no line end in them exactly if the names of
states, events and actions have none. -/
theorem WellFormed.newline_not_mem_drawing_iff (hc : c.WellFormed) :
    (∀ p ∈ c.drawing {}, '\n' ∉ p.text.toList) ↔
      (∀ id ∈ c.stateIds, '\n' ∉ id.toList) ∧ (∀ event ∈ c.events, '\n' ∉ event.toList) ∧
        ∀ action ∈ c.actions, '\n' ∉ action.toList := by
  have hlabel : ∀ t : Transition, '\n' ∉ t.label.toList ↔
      '\n' ∉ t.event.toList ∧ ∀ action ∈ t.actions, '\n' ∉ action.toList :=
    fun t => Transition.not_mem_label_iff (by decide)
  rw [hc.forall_mem_drawing]
  simp only [DrawStatement.newline_not_mem_text_iff, DrawStatement.shown, List.forall_mem_cons,
    List.not_mem_nil, false_implies, implies_true, and_true, hlabel]
  constructor
  · rintro ⟨hnode, hbase, hedge⟩
    refine ⟨?_, ?_, ?_⟩
    · intro id hid
      obtain ⟨s, hs, rfl⟩ := List.mem_map.1 hid
      by_cases hsb : c.isBase s.id = true
      · obtain ⟨b, hb, hid⟩ := (Option.any_eq_true _ _).1 hsb
        exact of_decide_eq_true hid ▸ (hbase b hb).1
      · exact hnode s hs (by simpa using hsb)
    · intro event hevent
      obtain ⟨t, ht, rfl⟩ := mem_events.1 hevent
      obtain ⟨s, hs, ht⟩ := mem_transitions.1 ht
      exact (hedge s hs t ht).2.2.1
    · intro action haction
      obtain ⟨t, ht, haction⟩ := mem_actions.1 haction
      obtain ⟨s, hs, ht⟩ := mem_transitions.1 ht
      exact (hedge s hs t ht).2.2.2 action haction
  · rintro ⟨hstate, hevent, haction⟩
    refine ⟨?_, ?_, ?_⟩
    · intro s hs _
      exact hstate s.id (List.mem_map_of_mem hs)
    · intro b hb
      exact ⟨hstate b.id (List.mem_map_of_mem (mem_states_of_baseState? hb)), by decide, by decide⟩
    · intro s hs t ht
      have htc := mem_transitions.2 ⟨s, hs, ht⟩
      exact ⟨hstate s.id (List.mem_map_of_mem hs), hstate t.target (hc.target_mem t htc),
        hevent t.event (mem_events.2 ⟨t, htc, rfl⟩),
        fun action hmem => haction action (mem_actions.2 ⟨t, htc, hmem⟩)⟩

/-- The lines of a drawing in the usual style have no line end in them exactly if the names of the
chart have none. -/
theorem WellFormed.newline_not_mem_dotLines_iff (hc : c.WellFormed) :
    (∀ line ∈ (c.dotLines {}).map String.toList, '\n' ∉ line) ↔
      '\n' ∉ c.className.toList ∧ (∀ id ∈ c.stateIds, '\n' ∉ id.toList) ∧
      (∀ event ∈ c.events, '\n' ∉ event.toList) ∧ ∀ action ∈ c.actions, '\n' ∉ action.toList := by
  rw [← hc.newline_not_mem_drawing_iff]
  simp only [dotLines, List.map_append, List.map_map, List.forall_mem_append, List.forall_mem_map]
  simp

/-- A text that is divided into lines and labels as the drawing of a chart should be. -/
structure LexicallySound (c : Chart) (text : String) : Prop where
  /-- two lines for the frame, and one for each state and each transition -/
  count : (lines text.toList).length =
    2 + (c.states.filter (!c.isBase ·.id)).length + c.transitions.length +
      c.baseState?.toList.length
  /-- each of them is a statement, or belongs to the frame -/
  whole : lines text.toList = (c.dotLines {}).map String.toList
  /-- the label of an edge ends at the quote before the last two characters of the line -/
  label : ∀ source target label, .edge source target label ∈ c.drawing {} →
    cutQuoted false ((DrawStatement.edge source target label).text.toList.drop
      (DrawStatement.labelStart source target).length) = some (label.toList, [']', ';'])

theorem WellFormed.edge_mem_drawing_iff (hc : c.WellFormed) {source target label : String} :
    .edge source target label ∈ c.drawing style ↔
      ∃ s ∈ c.states, ∃ t ∈ s.transitions,
        s.id = source ∧ t.target = target ∧ t.label = label := by
  have hmem := (hc.edges_perm style).mem_iff (a := .edge source target label)
  simp only [List.mem_filter, DrawStatement.isEdge, and_true] at hmem
  simp [hmem, drawTransitions]

/-- The labels of a drawing end where they should exactly if the names in them can be quoted. -/
theorem WellFormed.label_iff (hc : c.WellFormed) :
    (∀ source target label, .edge source target label ∈ c.drawing {} →
      cutQuoted false ((DrawStatement.edge source target label).text.toList.drop
        (DrawStatement.labelStart source target).length) = some (label.toList, [']', ';'])) ↔
      ∀ t ∈ c.transitions, t.Quotable := by
  simp only [hc.edge_mem_drawing_iff, DrawStatement.drop_text_edge]
  constructor
  · intro h t ht
    obtain ⟨s, hs, ht⟩ := mem_transitions.1 ht
    exact (t.cutQuoted_label_iff _).1 (h s.id t.target t.label ⟨s, hs, t, ht, rfl, rfl, rfl⟩)
  · rintro h _ _ _ ⟨s, hs, t, ht, rfl, rfl, rfl⟩
    exact (t.cutQuoted_label_iff _).2 (h t (mem_transitions.2 ⟨s, hs, ht⟩))

/-- **What names can be drawn.**  Every chart that is read has a drawing, and it is divided into
lines and labels as it should be exactly if no name has a line feed, every quote in an event or
action follows an odd run of backslashes, and no event that is a whole label ends with such a run. -/
theorem lexicallySound_iff (hc : c.IsDocument) :
    ∃ text, c.dot? {} = some text ∧ (c.LexicallySound text ↔ c.WritableNames) := by
  have htext : c.dot? {} = some (String.join ((c.dotLines {}).map (· ++ "\n"))) :=
    if_pos (by decide)
  refine ⟨_, htext, ?_⟩
  have hlines := lines_flatMap_iff.trans hc.wellFormed.newline_not_mem_dotLines_iff
  rw [← toList_dot?_eq_flatMap htext] at hlines
  constructor
  · intro h
    obtain ⟨hclass, hstate, hevent, haction⟩ := hlines.1 h.whole
    exact ⟨hclass, hstate, hevent, haction, hc.wellFormed.label_iff.1 h.label⟩
  · intro h
    have hwhole := hlines.2 ⟨h.className, h.state, h.event, h.action⟩
    refine ⟨?_, hwhole, hc.wellFormed.label_iff.2 h.quotable⟩
    rw [hwhole, List.length_map, hc.wellFormed.length_dotLines]

/-- The door has only identifiers for names, and is drawn as it should be. -/
theorem lexicallySound_iff_door : ∃ text, door.dot? {} = some text ∧ door.LexicallySound text := by
  have hnames : door.HasIdentifiers := ⟨by decide, by decide, by decide, by decide⟩
  obtain ⟨text, htext, hsound⟩ := lexicallySound_iff isDocument_door
  exact ⟨text, htext, hsound.2 hnames.writableNames⟩

/-- The element tree of a bell with quotes in an event. -/
def bellElement : Markup.Element :=
  ⟨"scxml", [⟨"name", "Bell"⟩],
    [⟨"state", [⟨"id", "Idle"⟩],
      [⟨"transition", [⟨"event", "Say \"hi\""⟩, ⟨"target", "Idle"⟩], []⟩]⟩]⟩

/-- The chart of a bell. -/
def bell : Chart where
  className := "Bell"
  package? := none
  initial := "Idle"
  base? := none
  debug := false
  states := [⟨"Idle", [⟨"Say \"hi\"", "Idle", []⟩]⟩]

/-- The bell is read, but the label in its drawing ends before the word that it should show. -/
theorem not_lexicallySound_bell :
    ofElement bellElement = .ok bell ∧
      ∃ text, bell.dot? {} = some text ∧ ¬ bell.LexicallySound text := by
  refine ⟨rfl, _, rfl, ?_⟩
  intro h
  have hedge : DrawStatement.edge "Idle" "Idle" "Say \"hi\"" ∈ bell.drawing {} := by decide
  have hcut := h.label _ _ _ hedge
  revert hcut
  decide

end Chart

end Statechart
