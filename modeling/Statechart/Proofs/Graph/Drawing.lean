import Mathlib.Data.List.Nodup
import Statechart.Graph.Dot
import Statechart.Proofs.Chart.Depiction
import Statechart.Proofs.Source.Excerpts
set_option autoImplicit false

/-!
# Drawings determine what they show

A drawing is a row of statements, one to a line, and its text can be taken apart from the front.  A
statement starts with an identifier, what follows tells the three kinds of statement apart, and each
part ends at a character that cannot stand in it (`DrawStatement.text_append_inj`).  The look of the
base state may be any text, line ends included, since it is the same in both drawings.

From the statements the states are read back (`pictureStatements_inj`): the transitions of a state
follow its node, and end where a statement does not start from that state.
-/

namespace Statechart

open Statechart.Source

/-- Lists whose members pass a test, followed by something that does not start with such a member,
are told apart from what follows. -/
theorem span_inj {α : Type} {p : α → Bool} {u v x y : List α} (hu : ∀ a ∈ u, p a = true)
    (hv : ∀ a ∈ v, p a = true) (hx : ∀ a ∈ x.head?, p a = false) (hy : ∀ a ∈ y.head?, p a = false)
    (h : u ++ x = v ++ y) : u = v ∧ x = y := by
  have hstop : ∀ {z : List α}, (∀ a ∈ z.head?, p a = false) → z.takeWhile p = [] := by
    intro z hz
    cases z with
    | nil => rfl
    | cons a z => rw [List.takeWhile_cons_of_neg (by simp [hz a rfl])]
  have htake := congrArg (List.takeWhile p) h
  rw [List.takeWhile_append_of_pos hu, List.takeWhile_append_of_pos hv, hstop hx, hstop hy,
    List.append_nil, List.append_nil] at htake
  subst htake
  exact ⟨rfl, List.append_cancel_left h⟩

/-- An identifier ends before a character that cannot stand in one. -/
theorem identifier_append_inj {name name' : String} (h : IsIdentifier name)
    (h' : IsIdentifier name') {x y : List Char} (hx : ∀ c ∈ x.head?, isIdentifierPart c = false)
    (hy : ∀ c ∈ y.head?, isIdentifierPart c = false)
    (heq : name.toList ++ x = name'.toList ++ y) : name = name' ∧ x = y := by
  obtain ⟨hname, hrest⟩ := span_inj h.isIdentifierPart h'.isIdentifierPart hx hy heq
  exact ⟨String.toList_inj.1 hname, hrest⟩

/-- A text without quotes ends before a quote. -/
theorem quoted_append_inj {text text' : String} (h : '\x22' ∉ text.toList)
    (h' : '\x22' ∉ text'.toList) {x y : List Char}
    (heq : text.toList ++ '\x22' :: x = text'.toList ++ '\x22' :: y) : text = text' ∧ x = y := by
  obtain ⟨htext, hrest⟩ := span_inj (p := (· ≠ '\x22'))
    (by grind) (by grind) (by simp) (by simp) heq
  exact ⟨String.toList_inj.1 htext, (List.cons.inj hrest).2⟩

/-! ## Labels -/

/-- The event and the actions of a transition are identifiers. -/
structure Transition.Named (t : Transition) : Prop where
  event : IsIdentifier t.event
  action : ∀ action ∈ t.actions, IsIdentifier action

namespace Transition

/-- What a label shows after the event. -/
def actionLabel (actions : List String) : String :=
  if actions.isEmpty then "" else "\\n(" ++ String.intercalate ",\\n" actions ++ ")"

theorem label_eq (t : Transition) : t.label = t.event ++ actionLabel t.actions := by
  unfold label actionLabel
  cases t.actions with
  | nil => exact String.append_empty.symm
  | cons action actions => simp [String.append_assoc]

/-- What follows the event is empty or starts with a character that no identifier has. -/
theorem head?_actionLabel (actions : List String) :
    ∀ c ∈ (actionLabel actions).toList.head?, isIdentifierPart c = false := by
  intro c hc
  cases actions with
  | nil => exact absurd hc (by simp [actionLabel])
  | cons action actions =>
    obtain rfl : '\\' = c := by simpa [actionLabel] using hc
    decide

/-- Actions are read back from what a label shows of them. -/
theorem actionLabel_inj {actions actions' : List String}
    (h : ∀ action ∈ actions, IsIdentifier action) (h' : ∀ action ∈ actions', IsIdentifier action)
    (heq : actionLabel actions = actionLabel actions') : actions = actions' := by
  have hitems : ∀ {actions : List String}, (∀ action ∈ actions, IsIdentifier action) →
      items ",\\n" (String.intercalate ",\\n" actions) = actions := by
    intro actions h
    exact items_intercalate (c := ',') rfl fun action haction =>
      ⟨(h action haction).ne_empty, (h action haction).not_mem (by decide)⟩
  cases actions with
  | nil =>
    cases actions' with
    | nil => rfl
    | cons action actions => simp [actionLabel] at heq
  | cons action actions =>
    cases actions' with
    | nil => simp [actionLabel] at heq
    | cons action' actions' =>
      have hinside : String.intercalate ",\\n" (action :: actions) =
          String.intercalate ",\\n" (action' :: actions') := by
        simpa [actionLabel] using heq
      rw [← hitems h, hinside, hitems h']

/-- **A label determines the event and the actions.** -/
theorem label_inj {t u : Transition} (ht : t.Named) (hu : u.Named) (h : t.label = u.label) :
    t.event = u.event ∧ t.actions = u.actions := by
  rw [label_eq, label_eq] at h
  have hlist := congrArg String.toList h
  rw [String.toList_append, String.toList_append] at hlist
  obtain ⟨hevent, hactions⟩ := identifier_append_inj ht.event hu.event
    (head?_actionLabel _) (head?_actionLabel _) hlist
  exact ⟨hevent, actionLabel_inj ht.action hu.action (String.toList_inj.1 hactions)⟩

/-- A character that divides nothing in a label stands in it only if it stands in a name. -/
theorem not_mem_label_iff {t : Transition} {c : Char} (hc : c ∉ "\\n(,)".toList) :
    c ∉ t.label.toList ↔ c ∉ t.event.toList ∧ ∀ action ∈ t.actions, c ∉ action.toList := by
  have hactions : ∀ {actions : List String},
      c ∉ (String.intercalate ",\\n" actions).toList ↔ ∀ action ∈ actions, c ∉ action.toList := by
    intro actions
    induction actions with
    | nil => simp
    | cons action actions ih =>
      cases actions with
      | nil => simp
      | cons next actions =>
        rw [String.intercalate_cons_cons, List.forall_mem_cons, ← ih]
        simp_all
  rw [label_eq, String.toList_append, List.mem_append, not_or]
  refine and_congr_right fun _ => ?_
  rw [← hactions]
  cases t.actions <;> simp_all [actionLabel]

theorem Named.quote_not_mem_label {t : Transition} (h : t.Named) : '\x22' ∉ t.label.toList :=
  (not_mem_label_iff (by decide)).2 ⟨h.event.not_mem (by decide), fun action haction =>
    (h.action action haction).not_mem (by decide)⟩

end Transition

/-! ## Statements -/

namespace DrawStatement

/-- Whether a statement draws a transition. -/
def isEdge : DrawStatement → Bool
  | .edge .. => true
  | _ => false

/-- Whether a statement draws a transition of the state with this id. -/
def leaves (id : String) : DrawStatement → Bool
  | .edge source _ _ => source = id
  | _ => false

/-- The state that a statement is about. -/
def subject : DrawStatement → String
  | .node id _ => id
  | .edge source _ _ => source
  | .baseNode id _ _ => id

/-- The text of a statement after the state that it is about. -/
def details : DrawStatement → String
  | .node _ shape => " [shape=" ++ shape.name ++ "]"
  | .edge _ target label => " -> " ++ target ++ " [fontsize=10, label=\"" ++ label ++ "\"];"
  | .baseNode _ shape color => "[shape=" ++ shape ++ ", color=" ++ color ++ "]"

theorem text_eq (p : DrawStatement) : p.text = p.subject ++ p.details := by
  cases p <;> simp [text, subject, details, String.append_assoc]

/-- Names are identifiers, a label has no quote, and the base state looks as the style says. -/
def Legible (style : GraphStyle) : DrawStatement → Prop
  | .node id _ => IsIdentifier id
  | .edge source target label =>
    IsIdentifier source ∧ IsIdentifier target ∧ '\x22' ∉ label.toList
  | .baseNode id shape color =>
    IsIdentifier id ∧ shape = style.baseShape ∧ color = style.baseColor

variable {style : GraphStyle} {p q : DrawStatement} {x y : List Char}

theorem Legible.subject (h : p.Legible style) : IsIdentifier p.subject := by
  cases p with
  | node => exact h
  | edge => exact h.1
  | baseNode => exact h.1

/-- No identifier goes on into the details of a statement. -/
theorem head?_details_append (p : DrawStatement) (x : List Char) :
    ∀ c ∈ (p.details.toList ++ x).head?, isIdentifierPart c = false := by
  cases p <;> simp [details] <;> decide

/-- The details of a statement can be told from what follows on the next lines. -/
theorem details_append_inj (hp : p.Legible style) (hq : q.Legible style)
    (hsubject : p.subject = q.subject)
    (h : p.details.toList ++ '\n' :: x = q.details.toList ++ '\n' :: y) : p = q ∧ x = y := by
  cases p with
  | node id shape =>
    cases q with
    | node id' shape' =>
      obtain rfl : id = id' := hsubject
      cases shape <;> cases shape' <;> simp_all [details, NodeShape.name]
    | edge => simp [details] at h
    | baseNode => simp [details] at h
  | edge source target label =>
    cases q with
    | node => simp [details] at h
    | edge source' target' label' =>
      obtain ⟨_, htarget, hlabel⟩ := hp
      obtain ⟨_, htarget', hlabel'⟩ := hq
      obtain rfl : source = source' := hsubject
      simp only [details, String.toList_append, List.append_assoc] at h
      obtain ⟨rfl, hafter⟩ := identifier_append_inj htarget htarget' (by simp; decide)
        (by simp; decide) (List.append_cancel_left h)
      obtain ⟨rfl, hrest⟩ := quoted_append_inj hlabel hlabel' (List.append_cancel_left hafter)
      simpa using hrest
    | baseNode => simp [details] at h
  | baseNode id shape color =>
    cases q with
    | node => simp [details] at h
    | edge => simp [details] at h
    | baseNode id' shape' color' =>
      obtain ⟨_, rfl, rfl⟩ := hp
      obtain ⟨_, rfl, rfl⟩ := hq
      obtain rfl : id = id' := hsubject
      simpa using List.append_cancel_left h

/-- A statement can be told from what follows on the next lines. -/
theorem text_append_inj (hp : p.Legible style) (hq : q.Legible style)
    (h : p.text.toList ++ '\n' :: x = q.text.toList ++ '\n' :: y) : p = q ∧ x = y := by
  rw [text_eq, text_eq, String.toList_append, String.toList_append, List.append_assoc,
    List.append_assoc] at h
  obtain ⟨hsubject, hdetails⟩ := identifier_append_inj hp.subject hq.subject
    (head?_details_append p _) (head?_details_append q _) h
  exact details_append_inj hp hq hsubject hdetails

end DrawStatement

/-! ## Texts -/

/-- Statements on indented lines of their own, and the line that ends a drawing. -/
def drawnLines (indent : Nat) (statements : List DrawStatement) : List Char :=
  statements.flatMap (fun p => List.replicate indent ' ' ++ p.text.toList ++ ['\n']) ++
    ['\x7d', '\n']

theorem drawnLines_cons (indent : Nat) (p : DrawStatement) (ps : List DrawStatement) :
    drawnLines indent (p :: ps) =
      List.replicate indent ' ' ++ (p.text.toList ++ '\n' :: drawnLines indent ps) := by
  simp [drawnLines]

theorem Chart.toList_dot? {c : Chart} {style : GraphStyle} {text : String}
    (h : c.dot? style = some text) :
    text.toList = "digraph ".toList ++ (c.className.toList ++
      (" \x7b\n".toList ++ drawnLines style.indent (c.drawing style))) := by
  unfold Chart.dot? at h
  split at h
  · cases h
    simp [Chart.dotLines, drawnLines, String.toList_join, List.flatMap_map]
  · cases h

/-- A line with a statement does not start like the line that ends a drawing. -/
theorem DrawStatement.Legible.head?_ne {style : GraphStyle} {p : DrawStatement}
    (hp : p.Legible style) (indent : Nat) (x : List Char) :
    (List.replicate indent ' ' ++ (p.text.toList ++ x)).head? ≠ some '\x7d' := by
  cases indent with
  | succ n => simp [List.replicate_succ]
  | zero =>
    intro h
    have hname := hp.subject
    rw [text_eq, String.toList_append] at h
    cases hcs : p.subject.toList with
    | nil => exact hname.ne_empty (String.toList_eq_nil_iff.1 hcs)
    | cons c cs =>
      obtain rfl : c = '\x7d' := by simpa [hcs] using h
      exact hname.not_mem (by decide) (hcs ▸ List.mem_cons_self)

/-- The lines of a drawing determine its statements. -/
theorem drawnLines_inj {style : GraphStyle} {indent : Nat} {ps qs : List DrawStatement}
    (hps : ∀ p ∈ ps, p.Legible style) (hqs : ∀ q ∈ qs, q.Legible style)
    (h : drawnLines indent ps = drawnLines indent qs) : ps = qs := by
  induction ps generalizing qs with
  | nil =>
    cases qs with
    | nil => rfl
    | cons q qs =>
      rw [drawnLines_cons] at h
      exact absurd (congrArg List.head? h).symm ((hqs q List.mem_cons_self).head?_ne indent _)
  | cons p ps ih =>
    cases qs with
    | nil =>
      rw [drawnLines_cons] at h
      exact absurd (congrArg List.head? h) ((hps p List.mem_cons_self).head?_ne indent _)
    | cons q qs =>
      rw [drawnLines_cons, drawnLines_cons] at h
      obtain ⟨rfl, hrest⟩ := DrawStatement.text_append_inj (hps p List.mem_cons_self)
        (hqs q List.mem_cons_self) (List.append_cancel_left h)
      rw [ih (fun p hp => hps p (List.mem_cons_of_mem _ hp))
        (fun q hq => hqs q (List.mem_cons_of_mem _ hq)) hrest]

/-! ## Pictures -/

/-- A state other than the base state as it is drawn. -/
structure DrawnState where
  state : State
  shape : NodeShape
  deriving DecidableEq, Repr, Inhabited

/-- What a drawing shows: the class, the states other than the base state in document order, each in
its shape and with its transitions in document order, and the base state with its transitions. -/
structure Picture where
  className : String
  ordinary : List DrawnState
  base? : Option State
  deriving DecidableEq, Repr, Inhabited

/-- What the drawing of a chart shows. -/
def Chart.picture (c : Chart) : Picture where
  className := c.className
  ordinary := (c.states.filter (!c.isBase ·.id)).map fun s => ⟨s, c.nodeShape s⟩
  base? := c.baseState?

/-- The statements for a state in its shape. -/
def DrawnState.statements (d : DrawnState) : List DrawStatement :=
  .node d.state.id d.shape :: Chart.drawTransitions d.state

/-- The statements for a base state. -/
def baseStatements (style : GraphStyle) : Option State → List DrawStatement
  | some b => Chart.drawTransitions b ++ [.baseNode b.id style.baseShape style.baseColor]
  | none => []

/-- The statements of a picture. -/
def pictureStatements (style : GraphStyle) (ordinary : List DrawnState) (base? : Option State) :
    List DrawStatement :=
  ordinary.flatMap DrawnState.statements ++ baseStatements style base?

theorem pictureStatements_cons (style : GraphStyle) (d : DrawnState) (ds : List DrawnState)
    (base? : Option State) : pictureStatements style (d :: ds) base? =
      .node d.state.id d.shape ::
        (Chart.drawTransitions d.state ++ pictureStatements style ds base?) := by
  simp [pictureStatements, DrawnState.statements]

theorem Chart.drawing_eq (c : Chart) (style : GraphStyle) :
    c.drawing style = pictureStatements style c.picture.ordinary c.picture.base? := by
  unfold Chart.drawing Chart.picture pictureStatements baseStatements
  rw [List.flatMap_map]
  rfl

/-- The id of a state, and the events, targets and actions of its transitions are identifiers. -/
structure State.Named (s : State) : Prop where
  id : IsIdentifier s.id
  transition : ∀ t ∈ s.transitions, t.Named
  target : ∀ t ∈ s.transitions, IsIdentifier t.target

/-- The statement for a transition determines the transition. -/
theorem Transition.eq_of_edge_eq {id : String} {t u : Transition} (ht : t.Named) (hu : u.Named)
    (h : DrawStatement.edge id t.target t.label = .edge id u.target u.label) : t = u := by
  obtain ⟨_, htarget, hlabel⟩ := DrawStatement.edge.inj h
  obtain ⟨hevent, hactions⟩ := label_inj ht hu hlabel
  cases t
  cases u
  simp_all

/-- The statements for the transitions of a state determine the transitions. -/
theorem transitions_inj {id : String} {ts us : List Transition} (hts : ∀ t ∈ ts, t.Named)
    (hus : ∀ u ∈ us, u.Named)
    (h : Chart.drawTransitions ⟨id, ts⟩ = Chart.drawTransitions ⟨id, us⟩) : ts = us := by
  unfold Chart.drawTransitions at h
  induction ts generalizing us with
  | nil => exact (List.map_eq_nil_iff.1 h.symm).symm
  | cons t ts ih =>
    cases us with
    | nil => cases h
    | cons u us =>
      obtain ⟨hedge, hrest⟩ := List.cons.inj h
      rw [Transition.eq_of_edge_eq (hts t List.mem_cons_self) (hus u List.mem_cons_self) hedge,
        ih (fun t ht => hts t (List.mem_cons_of_mem _ ht))
          (fun u hu => hus u (List.mem_cons_of_mem _ hu)) hrest]

theorem State.eq_of_drawTransitions_eq {s s' : State} (hs : s.Named) (hs' : s'.Named)
    (hid : s.id = s'.id) (h : Chart.drawTransitions s = Chart.drawTransitions s') : s = s' := by
  obtain ⟨id, ts⟩ := s
  obtain ⟨id', ts'⟩ := s'
  obtain rfl : id = id' := hid
  obtain rfl := transitions_inj hs.transition hs'.transition h
  rfl

/-- The statements for a base state determine the state. -/
theorem baseStatements_inj {style : GraphStyle} {base? base?' : Option State}
    (hb : ∀ b ∈ base?, b.Named) (hb' : ∀ b ∈ base?', b.Named)
    (h : baseStatements style base? = baseStatements style base?') : base? = base?' := by
  cases base? with
  | none =>
    cases base?' with
    | none => rfl
    | some b' => simp [baseStatements] at h
  | some b =>
    cases base?' with
    | none => simp [baseStatements] at h
    | some b' =>
      obtain ⟨hedges, hnode⟩ := List.append_inj' h rfl
      have hid : b.id = b'.id := (DrawStatement.baseNode.inj (List.cons.inj hnode).1).1
      rw [State.eq_of_drawTransitions_eq (hb b rfl) (hb' b' rfl) hid hedges]

/-- The names in a picture are identifiers, and the base state is none of the other states. -/
structure Drawable (ordinary : List DrawnState) (base? : Option State) : Prop where
  ordinary_named : ∀ d ∈ ordinary, d.state.Named
  base_named : ∀ b ∈ base?, b.Named
  apart : ∀ d ∈ ordinary, ∀ b ∈ base?, b.id ≠ d.state.id

theorem Drawable.tail {d : DrawnState} {ordinary : List DrawnState} {base? : Option State}
    (h : Drawable (d :: ordinary) base?) : Drawable ordinary base? where
  ordinary_named := fun d hd => h.ordinary_named d (List.mem_cons_of_mem _ hd)
  base_named := h.base_named
  apart := fun d hd => h.apart d (List.mem_cons_of_mem _ hd)

theorem leaves_of_mem_drawTransitions (s : State) :
    ∀ p ∈ Chart.drawTransitions s, p.leaves s.id = true := by
  intro p hp
  obtain ⟨t, _, rfl⟩ := List.mem_map.1 hp
  simp [DrawStatement.leaves]

/-- The statement after the transitions of a state is not a transition of that state. -/
theorem head?_pictureStatements {style : GraphStyle} {ordinary : List DrawnState}
    {base? : Option State} {id : String} (hbase : ∀ b ∈ base?, b.id ≠ id) :
    ∀ p ∈ (pictureStatements style ordinary base?).head?, p.leaves id = false := by
  intro p hp
  cases ordinary with
  | cons d ordinary =>
    cases hp
    rfl
  | nil =>
    cases base? with
    | none => cases hp
    | some b =>
      cases hts : b.transitions with
      | nil =>
        obtain rfl : .baseNode b.id style.baseShape style.baseColor = p := by
          simpa [pictureStatements, baseStatements, Chart.drawTransitions, hts] using hp
        rfl
      | cons t ts =>
        obtain rfl : .edge b.id t.target t.label = p := by
          simpa [pictureStatements, baseStatements, Chart.drawTransitions, hts] using hp
        simpa [DrawStatement.leaves] using hbase b rfl

theorem filter_isEdge_drawTransitions (s : State) :
    (Chart.drawTransitions s).filter (·.isEdge) = Chart.drawTransitions s := by
  rw [List.filter_eq_self]
  intro p hp
  obtain ⟨t, _, rfl⟩ := List.mem_map.1 hp
  rfl

/-- The transitions in a picture are those of its states, in order. -/
theorem filter_isEdge_pictureStatements (style : GraphStyle) (ds : List DrawnState)
    (base? : Option State) : (pictureStatements style ds base?).filter (·.isEdge) =
      (ds.map (·.state) ++ base?.toList).flatMap Chart.drawTransitions := by
  induction ds with
  | nil =>
    cases base? with
    | none => rfl
    | some b =>
      have hnode : [DrawStatement.baseNode b.id style.baseShape style.baseColor].filter
          (·.isEdge) = [] := rfl
      simp only [pictureStatements, baseStatements, List.flatMap_nil, List.nil_append,
        List.filter_append, filter_isEdge_drawTransitions, hnode, List.map_nil, Option.toList_some,
        List.flatMap_cons]
  | cons d ds ih =>
    rw [pictureStatements_cons, List.filter_cons_of_neg (by simp [DrawStatement.isEdge]),
      List.filter_append, filter_isEdge_drawTransitions, ih]
    rfl

theorem mem_pictureStatements {style : GraphStyle} {ds : List DrawnState} {base? : Option State}
    {p : DrawStatement} : p ∈ pictureStatements style ds base? ↔
      (∃ d ∈ ds, p = .node d.state.id d.shape) ∨
      (∃ b ∈ base?, p = .baseNode b.id style.baseShape style.baseColor) ∨
      ∃ s ∈ ds.map (·.state) ++ base?.toList, p ∈ Chart.drawTransitions s := by
  cases base? <;>
    simp only [pictureStatements, baseStatements, DrawnState.statements, List.mem_append,
      List.mem_flatMap, List.mem_cons] <;>
    grind

/-- The statements for a base state do not start with the node of another state. -/
theorem baseStatements_ne_cons {style : GraphStyle} {base? : Option State} {id : String}
    {shape : NodeShape} {ps : List DrawStatement} :
    baseStatements style base? ≠ .node id shape :: ps := by
  intro h
  cases base? with
  | none => cases h
  | some b => cases hts : b.transitions <;> simp [baseStatements, Chart.drawTransitions, hts] at h

/-- The statements of a picture determine the picture. -/
theorem pictureStatements_inj {style : GraphStyle} {ds ds' : List DrawnState}
    {base? base?' : Option State} (hd : Drawable ds base?) (hd' : Drawable ds' base?')
    (h : pictureStatements style ds base? = pictureStatements style ds' base?') :
    ds = ds' ∧ base? = base?' := by
  induction ds generalizing ds' with
  | nil =>
    cases ds' with
    | nil => exact ⟨rfl, baseStatements_inj hd.base_named hd'.base_named h⟩
    | cons d' ds' => exact absurd h baseStatements_ne_cons
  | cons d ds ih =>
    cases ds' with
    | nil => exact absurd h.symm baseStatements_ne_cons
    | cons d' ds' =>
      rw [pictureStatements_cons, pictureStatements_cons] at h
      obtain ⟨hnode, hrest⟩ := List.cons.inj h
      obtain ⟨hid, hshape⟩ := DrawStatement.node.inj hnode
      -- the transitions end at the first statement that does not leave the state
      obtain ⟨hedges, hrest⟩ := span_inj (leaves_of_mem_drawTransitions d.state)
        (hid ▸ leaves_of_mem_drawTransitions d'.state)
        (head?_pictureStatements (hd.apart d List.mem_cons_self))
        (hid ▸ head?_pictureStatements (hd'.apart d' List.mem_cons_self)) hrest
      have hstate := State.eq_of_drawTransitions_eq (hd.ordinary_named d List.mem_cons_self)
        (hd'.ordinary_named d' List.mem_cons_self) hid hedges
      obtain ⟨rfl, rfl⟩ := ih hd.tail hd'.tail hrest
      obtain ⟨state, shape⟩ := d
      obtain ⟨state', shape'⟩ := d'
      obtain rfl : state = state' := hstate
      obtain rfl : shape = shape' := hshape
      exact ⟨rfl, rfl⟩

/-! ## Charts -/

namespace Chart

/-- The class, the states, the events and the actions of a chart are identifiers. -/
structure HasIdentifiers (c : Chart) : Prop where
  className : IsIdentifier c.className
  state : ∀ id ∈ c.stateIds, IsIdentifier id
  event : ∀ event ∈ c.events, IsIdentifier event
  action : ∀ action ∈ c.actions, IsIdentifier action

variable {c d : Chart} {style : GraphStyle}

theorem HasIdentifiers.transition_named (h : c.HasIdentifiers) {t : Transition}
    (ht : t ∈ c.transitions) : t.Named where
  event := h.event _ (mem_events.2 ⟨t, ht, rfl⟩)
  action := fun _ haction => h.action _ (mem_actions.2 ⟨t, ht, haction⟩)

theorem HasIdentifiers.state_named (h : c.HasIdentifiers) (hc : c.WellFormed) {s : State}
    (hs : s ∈ c.states) : s.Named where
  id := h.state _ (List.mem_map_of_mem hs)
  transition := fun _ ht => h.transition_named (mem_transitions.2 ⟨s, hs, ht⟩)
  target := fun t ht => h.state _ (hc.target_mem t (mem_transitions.2 ⟨s, hs, ht⟩))

/-- The picture of a chart has identifiers for names, and the base state apart. -/
theorem HasIdentifiers.drawable (h : c.HasIdentifiers) (hc : c.WellFormed) :
    Drawable c.picture.ordinary c.picture.base? where
  ordinary_named := by
    intro d hd
    obtain ⟨s, hs, rfl⟩ := List.mem_map.1 hd
    exact h.state_named hc (List.mem_filter.1 hs).1
  base_named := fun b hb => h.state_named hc (mem_states_of_baseState? hb)
  apart := by
    intro d hd b hb
    obtain ⟨s, hs, rfl⟩ := List.mem_map.1 hd
    have hnot := (List.mem_filter.1 hs).2
    have hbase : c.baseState? = some b := hb
    simpa [isBase, hbase] using hnot

/-- The states of a picture are those of the chart. -/
theorem WellFormed.states_perm (hc : c.WellFormed) :
    (c.picture.ordinary.map (·.state) ++ c.picture.base?.toList).Perm c.states := by
  have hordinary : c.picture.ordinary.map (·.state) = c.states.filter (!c.isBase ·.id) := by
    rw [picture, List.map_map]
    exact List.map_id _
  have hbase : (c.baseState?.toList).Perm (c.states.filter (c.isBase ·.id)) := by
    refine (List.perm_ext_iff_of_nodup ?_ ((List.Nodup.of_map _ hc.nodup_ids).filter _)).2 ?_
    · cases c.baseState? <;> simp
    · intro s
      rw [Option.mem_toList, List.mem_filter, isBase, Option.any_eq_true]
      constructor
      · intro hs
        exact ⟨mem_states_of_baseState? hs, s, hs, by simp⟩
      · rintro ⟨hs, b, hb, hid⟩
        have hstate := hc.state?_eq_some_iff.2 ⟨mem_states_of_baseState? hb, rfl⟩
        rw [of_decide_eq_true hid, hc.state?_eq_some_iff.2 ⟨hs, rfl⟩] at hstate
        rwa [Option.some.inj hstate]
  rw [hordinary]
  exact ((hbase.append_left _).trans List.perm_append_comm).trans
    (List.filter_append_perm (c.isBase ·.id) c.states)

/-- A drawing shows a node for each state that is not the base state, the base state, and all
transitions. -/
theorem WellFormed.forall_mem_drawing (hc : c.WellFormed) {P : DrawStatement → Prop} :
    (∀ p ∈ c.drawing style, P p) ↔
      (∀ s ∈ c.states, c.isBase s.id = false → P (.node s.id (c.nodeShape s))) ∧
      (∀ b, c.baseState? = some b → P (.baseNode b.id style.baseShape style.baseColor)) ∧
      ∀ s ∈ c.states, ∀ t ∈ s.transitions, P (.edge s.id t.target t.label) := by
  simp only [drawing_eq, mem_pictureStatements, hc.states_perm.mem_iff]
  simp only [picture, drawTransitions, List.mem_map, List.mem_filter, Option.mem_def]
  grind

theorem HasIdentifiers.legible (h : c.HasIdentifiers) (hc : c.WellFormed) :
    ∀ p ∈ c.drawing style, p.Legible style := by
  rw [hc.forall_mem_drawing]
  refine ⟨?_, ?_, ?_⟩
  · intro s hs _
    exact (h.state_named hc hs).id
  · intro b hb
    exact ⟨(h.state_named hc (mem_states_of_baseState? hb)).id, rfl, rfl⟩
  · intro s hs t ht
    have hnamed := h.state_named hc hs
    exact ⟨hnamed.id, hnamed.target t ht, (hnamed.transition t ht).quote_not_mem_label⟩

/-- Every transition is drawn once, those of the base state after the others. -/
theorem WellFormed.edges_perm (hc : c.WellFormed) (style : GraphStyle) :
    ((c.drawing style).filter (·.isEdge)).Perm (c.states.flatMap drawTransitions) := by
  rw [drawing_eq, filter_isEdge_pictureStatements]
  exact hc.states_perm.flatMap_right _

theorem WellFormed.nodeShape_eq_ellipse_iff (hc : c.WellFormed) {s : State} (hs : s ∈ c.states) :
    c.nodeShape s = .ellipse ↔ s.id = c.initial ∨ s.transitions = [] := by
  have hterminal : c.isTerminal s.id = true ↔ s.transitions = [] := by
    rw [isTerminal_iff hc, hc.state?_eq_some_iff.2 ⟨hs, rfl⟩]
    simp
  unfold nodeShape
  rw [← hterminal]
  split <;> simp_all

/-- A drawing shows nothing that is not in the picture. -/
theorem dot?_eq_of_picture_eq (style : GraphStyle) (h : c.picture = d.picture) :
    c.dot? style = d.dot? style := by
  have hname : c.className = d.className := congrArg Picture.className h
  unfold dot? dotLines
  rw [drawing_eq, drawing_eq, h, hname]

/-- A drawing shows everything that is in the picture. -/
theorem picture_eq_of_dot?_eq (hc : c.WellFormed) (hd : d.WellFormed) (hcn : c.HasIdentifiers)
    (hdn : d.HasIdentifiers) {text : String} (hct : c.dot? style = some text)
    (hdt : d.dot? style = some text) : c.picture = d.picture := by
  have htext := (toList_dot? hct).symm.trans (toList_dot? hdt)
  obtain ⟨hname, hlines⟩ := identifier_append_inj hcn.className hdn.className (by simp; decide)
    (by simp; decide) (List.append_cancel_left htext)
  have hdrawing := drawnLines_inj (hcn.legible hc) (hdn.legible hd)
    (List.append_cancel_left hlines)
  rw [drawing_eq, drawing_eq] at hdrawing
  obtain ⟨hordinary, hbase⟩ := pictureStatements_inj (hcn.drawable hc) (hdn.drawable hd) hdrawing
  exact Picture.mk.injEq .. ▸ ⟨hname, hordinary, hbase⟩

/-- **The drawings of charts with identifiers for names are the same exactly if the charts look the
same.**  So states, shapes, transitions and their order can be read off a drawing; a shape is an
ellipse exactly for initial and terminal states, each transition is drawn once, and its label tells
the event and the actions. -/
theorem dot_determines_picture (hc : c.IsDocument) (hd : d.IsDocument) (hcn : c.HasIdentifiers)
    (hdn : d.HasIdentifiers) (hindent : style.indent ≤ widestIndent) :
    (∃ text, c.dot? style = some text) ∧
    (c.dot? style = d.dot? style ↔ c.picture = d.picture) ∧
    (∀ s ∈ c.states, c.nodeShape s = .ellipse ↔ s.id = c.initial ∨ s.transitions = []) ∧
    ((c.drawing style).filter (·.isEdge)).Perm (c.states.flatMap drawTransitions) ∧
    ∀ t ∈ c.transitions, ∀ u ∈ d.transitions,
      t.label = u.label → t.event = u.event ∧ t.actions = u.actions := by
  have htext : ∃ text, c.dot? style = some text := ⟨_, if_pos hindent⟩
  refine ⟨htext, ⟨?_, dot?_eq_of_picture_eq style⟩, ?_, hc.wellFormed.edges_perm style, ?_⟩
  · intro heq
    obtain ⟨text, hct⟩ := htext
    exact picture_eq_of_dot?_eq hc.wellFormed hd.wellFormed hcn hdn hct (heq ▸ hct)
  · intro s hs
    exact hc.wellFormed.nodeShape_eq_ellipse_iff hs
  · intro t ht u hu hlabel
    exact Transition.label_inj (hcn.transition_named ht) (hdn.transition_named hu) hlabel

/-- The element tree of a latch whose base state performs two actions. -/
def latchElement (first second : String) : Markup.Element :=
  ⟨"scxml", [⟨"name", "Latch"⟩, ⟨"base", "Anywhere"⟩],
    [⟨"state", [⟨"id", "Shut"⟩], []⟩,
      ⟨"state", [⟨"id", "Anywhere"⟩],
        [⟨"transition", [⟨"event", "Lift"⟩, ⟨"target", "Shut"⟩],
          [⟨"action", [⟨"id", first⟩], []⟩, ⟨"action", [⟨"id", second⟩], []⟩]⟩]⟩]⟩

/-- The chart of a latch. -/
def latch (first second : String) : Chart where
  className := "Latch"
  package? := none
  initial := "Shut"
  base? := some "Anywhere"
  debug := false
  states := [⟨"Shut", []⟩, ⟨"Anywhere", [⟨"Lift", "Shut", [first, second]⟩]⟩]

/-- The order of two actions shows, even if the color of the base state ends the drawing early. -/
theorem dot_determines_picture_latch :
    (latch "Ring" "Drop").dot? ⟨0, "box", "]\n\x7d\n"⟩ ≠
      (latch "Drop" "Ring").dot? ⟨0, "box", "]\n\x7d\n"⟩ := by
  have hc : ofElement (latchElement "Ring" "Drop") = .ok (latch "Ring" "Drop") := rfl
  have hd : ofElement (latchElement "Drop" "Ring") = .ok (latch "Drop" "Ring") := rfl
  have hcn : (latch "Ring" "Drop").HasIdentifiers :=
    ⟨by decide, by decide, by decide, by decide⟩
  have hdn : (latch "Drop" "Ring").HasIdentifiers :=
    ⟨by decide, by decide, by decide, by decide⟩
  intro h
  have hpictures := (dot_determines_picture (.read hc) (.read hd) hcn hdn (by decide)).2.1.1 h
  exact absurd hpictures (by decide)

end Chart

end Statechart
