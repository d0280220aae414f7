import Statechart.Chart.OfElement
set_option autoImplicit false

/-!
# The rules of chart documents

`Chart.violations` lists every rule that an element tree breaks, in the order of the rules: root,
vocabulary, name, presence of states, the children of the root one after the other, base state,
initial state, targets.  `Chart.depicted` is the chart that an element tree shows, whatever it breaks.
Neither stops early or hands anything on from one element to the next.

Reading a chart gives the first entry of the list, or else the chart that is shown
(`Chart.ofElement_eq`).  Each reader has an equation of the same form, and the equations are put
together by the lemmas on `verdict`.
-/

namespace Statechart

open Statechart.Markup

/-! ## Verdicts -/

/-- The verdict on a text of which all broken rules are known: the first of them, or what the text
shows if there is none. -/
def verdict {α : Type} (broken : List Violation) (shown : α) : Except Violation α :=
  match broken with
  | [] => .ok shown
  | violation :: _ => .error violation

/-- The violation of a rule that is broken in the case `p`. -/
def brokenIf (p : Prop) [Decidable p] (violation : Violation) : List Violation :=
  if p then [violation] else []

section Verdicts

variable {α β : Type} {violation : Violation} {broken more : List Violation} {shown : α}

theorem verdict_eq_ok_iff {a : α} : verdict broken shown = .ok a ↔ broken = [] ∧ shown = a := by
  cases broken with
  | nil => simp [verdict]
  | cons first rest => simp [verdict]

theorem verdict_eq_error_iff : verdict broken shown = .error violation ↔
    broken.head? = some violation := by
  cases broken with
  | nil => simp [verdict]
  | cons first rest => simp [verdict]

@[simp] theorem brokenIf_eq_nil_iff {p : Prop} [Decidable p] : brokenIf p violation = [] ↔ ¬ p := by
  unfold brokenIf
  split <;> simp_all

/-- A reader that goes on after another adds what it finds broken. -/
theorem verdict_bind {f : α → Except Violation β} {b : β}
    (h : broken = [] → f shown = verdict more b) :
    (verdict broken shown >>= f) = verdict (broken ++ more) b := by
  cases broken with
  | nil => exact h rfl
  | cons first rest => rfl

/-- The same after a reader that shows nothing. -/
theorem verdict_andThen {x : Except Violation α} (h : broken = [] → x = verdict more shown) :
    (match verdict broken () with
      | .error violation => .error violation
      | .ok () => x) = verdict (broken ++ more) shown := by
  cases broken with
  | nil => exact h rfl
  | cons first rest => rfl

theorem verdict_map (f : α → β) :
    (verdict broken shown >>= fun a => pure (f a)) = verdict broken (f shown) := by
  cases broken with
  | nil => rfl
  | cons first rest => rfl

/-- A check in front of a reader. -/
theorem verdict_guard {p : Prop} [Decidable p] {x : Except Violation α}
    (h : ¬ p → x = verdict broken shown) :
    (if p then .error violation else x) = verdict (brokenIf p violation ++ broken) shown := by
  unfold brokenIf
  split
  · rfl
  · rename_i hp
    exact h hp

/-- A search that finds an offender reports it. -/
theorem verdict_of_find?_eq_some {p : β → Bool} {xs : List β} {b : β} (h : xs.find? p = some b)
    (report : β → Violation) :
    verdict ((xs.filter p).map report ++ more) shown = .error (report b) := by
  have hfirst : (xs.filter p).head? = some b := by rw [List.head?_filter, h]
  obtain ⟨rest, hrest⟩ := List.head?_eq_some_iff.1 hfirst
  rw [hrest]
  rfl

/-- A search that finds no offender leaves the verdict to what comes after it. -/
theorem verdict_of_find?_eq_none {p : β → Bool} {xs : List β} (h : xs.find? p = none)
    (report : β → Violation) :
    verdict ((xs.filter p).map report ++ more) shown = verdict more shown := by
  have hnone : xs.filter p = [] := by
    rw [List.filter_eq_nil_iff]
    exact List.find?_eq_none.1 h
  rw [hnone]
  rfl

/-- Readings of the members of a list, one after the other. -/
theorem mapM_verdict {f : β → Except Violation α} {broken : β → List Violation} {shown : β → α}
    (h : ∀ b, f b = verdict (broken b) (shown b)) (xs : List β) :
    xs.mapM f = verdict (xs.flatMap broken) (xs.map shown) := by
  induction xs with
  | nil => rfl
  | cons x xs ih =>
    rw [List.mapM_cons, h x, List.flatMap_cons]
    refine verdict_bind fun _ => ?_
    rw [ih]
    exact verdict_map (shown x :: ·)

end Verdicts

/-! ## Vocabulary -/

namespace Vocabulary

mutual

/-- The attribute and element names in a tree that no chart uses: first those that stand on the
element itself, then its children's names, then what offends inside the children. -/
def offenders : Element → List Violation
  | ⟨_, attributes, children⟩ =>
    (attributes.filter (·.name ∉ attributeNames)).map (.unknownAttribute ·.name)
      ++ ((children.filter (·.name ∉ elementNames)).map (.unknownElement ·.name)
        ++ offendersAll children)

/-- The offenders in trees that stand one after the other. -/
def offendersAll : List Element → List Violation
  | [] => []
  | e :: es => offenders e ++ offendersAll es

end

theorem checkElement_eq (e : Element) :
    checkElement e =
      verdict ((e.attributes.filter (·.name ∉ attributeNames)).map (.unknownAttribute ·.name)
        ++ (e.children.filter (·.name ∉ elementNames)).map (.unknownElement ·.name)) () := by
  unfold checkElement
  cases hattribute : e.attributes.find? (·.name ∉ attributeNames) with
  | some a => rw [verdict_of_find?_eq_some hattribute]
  | none =>
    rw [verdict_of_find?_eq_none hattribute, ← List.append_nil (List.map _ (e.children.filter _))]
    cases hchild : e.children.find? (·.name ∉ elementNames) with
    | some child => rw [verdict_of_find?_eq_some hchild]
    | none => rw [verdict_of_find?_eq_none hchild, verdict]

mutual

theorem checkTree_eq (e : Element) : checkTree e = verdict (offenders e) () := by
  match e with
  | ⟨name, attributes, children⟩ =>
    unfold checkTree offenders
    rw [checkElement_eq, ← List.append_assoc]
    exact verdict_andThen fun _ => checkAll_eq children

theorem checkAll_eq (es : List Element) : checkAll es = verdict (offendersAll es) () := by
  match es with
  | [] => rfl
  | e :: es =>
    unfold checkAll offendersAll
    rw [checkTree_eq e]
    exact verdict_andThen fun _ => checkAll_eq es

end

end Vocabulary

/-! ## Actions and transitions -/

/-- What an element inside the transition for `event` breaks. -/
def actionViolations (event : String) (e : Element) : List Violation :=
  if e.name ≠ Vocabulary.actionElement then [.strayInTransition e.name event]
  else e.children.map (.strayInAction ·.name) ++ brokenIf (e.attr "id" = "") .missingActionId

/-- What an element inside the state `id` breaks. -/
def transitionViolations (id : String) (e : Element) : List Violation :=
  if e.name ≠ Vocabulary.transitionElement then [.strayInState e.name id]
  else
    brokenIf (e.attr "event" = "") .missingEvent
      ++ (brokenIf (e.attr "target" = "") .missingTarget
        ++ e.children.flatMap (actionViolations (e.attr "event")))

/-- The transition that an element shows. -/
def Transition.depicted (e : Element) : Transition where
  event := e.attr "event"
  target := e.attr "target"
  actions := attributeAction e ++ e.children.map (·.attr "id")

theorem readAction_eq (event : String) (e : Element) :
    readAction event e = verdict (actionViolations event e) (e.attr "id") := by
  unfold readAction actionViolations
  split
  · rfl
  · cases e.children with
    | nil =>
      by_cases hid : e.attr "id" = ""
      · simp [brokenIf, verdict, hid]
      · simp [brokenIf, verdict, hid]
    | cons nested rest => rfl

theorem readTransition_eq (id : String) (e : Element) :
    readTransition id e = verdict (transitionViolations id e) (.depicted e) := by
  unfold readTransition transitionViolations
  split
  · rfl
  · unfold Transition.ofElement
    refine verdict_guard fun _ => verdict_guard fun _ => ?_
    rw [mapM_verdict (readAction_eq (e.attr "event"))]
    exact verdict_map fun nested => (⟨_, _, attributeAction e ++ nested⟩ : Transition)

/-! ## States -/

/-- The ids that the states among some elements declare. -/
def declaredIds (es : List Element) : List String :=
  (es.filter (·.name = Vocabulary.stateElement)).map (·.attr "id")

/-- What a child of a chart element breaks, `earlier` being the children before it. -/
def childViolations (earlier : List Element) (e : Element) : List Violation :=
  if e.name ≠ Vocabulary.stateElement then [.strayInChart e.name]
  else
    brokenIf (e.attr "id" = "") .missingStateId
      ++ (brokenIf (e.attr "id" ∈ declaredIds earlier) (.repeatedState (e.attr "id"))
        ++ e.children.flatMap (transitionViolations (e.attr "id")))

/-- What the children of a chart element break that come after those in `earlier`. -/
def childrenViolations (earlier : List Element) : List Element → List Violation
  | [] => []
  | e :: es => childViolations earlier e ++ childrenViolations (earlier ++ [e]) es

/-- The state that an element shows. -/
def State.depicted (e : Element) : State where
  id := e.attr "id"
  transitions := e.children.map .depicted

theorem State.ofElement_eq {earlier : List Element} {e : Element}
    (hname : e.name = Vocabulary.stateElement) :
    State.ofElement (declaredIds earlier) e = verdict (childViolations earlier e) (.depicted e) := by
  unfold State.ofElement childViolations
  rw [if_neg (not_not_intro hname)]
  refine verdict_guard fun _ => verdict_guard fun _ => ?_
  rw [mapM_verdict (readTransition_eq (e.attr "id"))]
  exact verdict_map fun transitions => (⟨_, transitions⟩ : State)

theorem declaredIds_concat {earlier : List Element} {e : Element}
    (hname : e.name = Vocabulary.stateElement) :
    declaredIds (earlier ++ [e]) = declaredIds earlier ++ [e.attr "id"] := by
  simp [declaredIds, hname]

/-- The ids that were handed on are those of the states before. -/
theorem readStates_eq (earlier es : List Element) :
    readStates (declaredIds earlier) es =
      verdict (childrenViolations earlier es) (es.map .depicted) := by
  induction es generalizing earlier with
  | nil => rfl
  | cons e es ih =>
    unfold readStates childrenViolations
    by_cases hname : e.name = Vocabulary.stateElement
    · rw [if_neg (not_not_intro hname), State.ofElement_eq hname]
      refine verdict_bind fun _ => ?_
      have hids : declaredIds earlier ++ [(State.depicted e).id] = declaredIds (earlier ++ [e]) :=
        (declaredIds_concat hname).symm
      rw [hids, ih]
      exact verdict_map (State.depicted e :: ·)
    · rw [if_pos hname, childViolations, if_pos hname]
      rfl

/-- An element inside a state that breaks no rule is a transition. -/
theorem name_of_transitionViolations {id : String} {e : Element}
    (h : transitionViolations id e = []) : e.name = Vocabulary.transitionElement := by
  unfold transitionViolations at h
  split at h
  · cases h
  · rename_i hname
    exact Classical.not_not.1 hname

theorem childViolations_eq_nil_iff {earlier : List Element} {e : Element} :
    childViolations earlier e = [] ↔
      e.name = Vocabulary.stateElement ∧ e.attr "id" ≠ "" ∧ e.attr "id" ∉ declaredIds earlier ∧
      ∀ c ∈ e.children, transitionViolations (e.attr "id") c = [] := by
  unfold childViolations
  by_cases hname : e.name = Vocabulary.stateElement
  · simp [hname]
  · simp [hname]

/-- Where the children break no rule, each of them breaks none. -/
theorem exists_childViolations_eq_nil {earlier es : List Element}
    (h : childrenViolations earlier es = []) {e : Element} (he : e ∈ es) :
    ∃ before, childViolations before e = [] := by
  induction es generalizing earlier with
  | nil => exact absurd he List.not_mem_nil
  | cons first rest ih =>
    obtain ⟨hfirst, hrest⟩ := List.append_eq_nil_iff.1 h
    rcases List.mem_cons.1 he with rfl | he
    · exact ⟨earlier, hfirst⟩
    · exact ih hrest he

/-- Children that break no rule are states with an id and with nothing but transitions in them. -/
theorem names_of_childrenViolations {earlier es : List Element}
    (h : childrenViolations earlier es = []) {e : Element} (he : e ∈ es) :
    e.name = Vocabulary.stateElement ∧ e.attr "id" ≠ "" ∧
      ∀ c ∈ e.children, c.name = Vocabulary.transitionElement := by
  obtain ⟨before, hbefore⟩ := exists_childViolations_eq_nil h he
  obtain ⟨hname, hid, _, hinner⟩ := childViolations_eq_nil_iff.1 hbefore
  exact ⟨hname, hid, fun c hc => name_of_transitionViolations (hinner c hc)⟩

theorem childrenNamed_eq_children {e : Element} {name : String}
    (h : ∀ c ∈ e.children, c.name = name) : e.childrenNamed name = e.children := by
  unfold Element.childrenNamed
  rw [List.filter_eq_self]
  intro c hc
  simpa using h c hc

namespace Chart

/-! ## Charts -/

/-- What the name of a chart breaks. -/
def nameViolations (name : String) : List Violation :=
  brokenIf (name = "") .missingName
    ++ brokenIf (name.toList.getLast? = some nameSeparator) .missingClass

/-- The name of the initial state: what the attribute says, else the first state that is declared. -/
def initialShown (root : Element) : String :=
  if root.attr "initial" = "" then (declaredIds root.children).headD "" else root.attr "initial"

/-- The targets of the transitions in a chart element, in document order. -/
def targetsShown (root : Element) : List String :=
  (root.childrenNamed Vocabulary.stateElement).flatMap fun state =>
    (state.childrenNamed Vocabulary.transitionElement).map (·.attr "target")

/-- The names of states that a chart element refers to but does not declare. -/
def referenceViolations (root : Element) : List Violation :=
  brokenIf (root.attr "base" ≠ "" ∧ root.attr "base" ∉ declaredIds root.children)
      (.undeclaredBase (root.attr "base"))
    ++ (brokenIf (initialShown root ∉ declaredIds root.children)
        (.undeclaredInitial (initialShown root))
      ++ ((targetsShown root).filter (· ∉ declaredIds root.children)).map .undeclaredTarget)

/-- Every rule that an element tree breaks, in the order of the rules. -/
def violations (root : Element) : List Violation :=
  brokenIf (root.name ≠ Vocabulary.chartElement) .wrongRoot
    ++ (Vocabulary.offenders root
      ++ (nameViolations (root.attr "name")
        ++ (brokenIf ((root.childrenNamed Vocabulary.stateElement).isEmpty) .noState
          ++ (childrenViolations [] root.children ++ referenceViolations root))))

/-- The chart that an element tree shows. -/
def depicted (root : Element) : Chart where
  className := (splitName (root.attr "name")).1
  package? := (splitName (root.attr "name")).2
  initial := initialShown root
  base? := if root.attr "base" = "" then none else some (root.attr "base")
  debug := saysTrue (root.attr "debug")
  states := root.children.map .depicted

section References

variable {root : Element}

/-- Where no child breaks a rule, the states that are shown have the declared ids. -/
theorem map_id_depicted (h : childrenViolations [] root.children = []) :
    (depicted root).states.map (·.id) = declaredIds root.children := by
  have hstates : root.childrenNamed Vocabulary.stateElement = root.children :=
    childrenNamed_eq_children fun e he => (names_of_childrenViolations h he).1
  have hids : declaredIds root.children = root.children.map fun e => e.attr "id" :=
    congrArg (List.map fun e : Element => e.attr "id") hstates
  rw [hids, depicted, List.map_map]
  rfl

theorem initialName_depicted (h : childrenViolations [] root.children = []) :
    initialName root (depicted root).states = initialShown root := by
  have hhead : ((depicted root).states.head?.map (·.id)).getD "" =
      (declaredIds root.children).headD "" := by
    rw [← map_id_depicted h, ← List.head?_map, List.headD_eq_head?_getD]
  unfold initialName initialShown
  rw [hhead]

/-- Where no child breaks a rule, the transitions that are shown have the targets that are shown. -/
theorem map_target_depicted (h : childrenViolations [] root.children = []) :
    ((depicted root).states.flatMap (·.transitions)).map (·.target) = targetsShown root := by
  unfold targetsShown
  rw [childrenNamed_eq_children fun e he => (names_of_childrenViolations h he).1]
  rw [List.map_flatMap, depicted, List.flatMap_map, List.flatMap_def, List.flatMap_def]
  refine congrArg List.flatten (List.map_congr_left fun e he => ?_)
  rw [childrenNamed_eq_children (names_of_childrenViolations h he).2.2]
  simp [State.depicted, Transition.depicted]

/-- Where no child breaks a rule, the undeclared targets are found transition by transition. -/
theorem undeclaredTargets_eq (h : childrenViolations [] root.children = []) :
    ((targetsShown root).filter (· ∉ declaredIds root.children)).map Violation.undeclaredTarget =
      (((depicted root).states.flatMap (·.transitions)).filter
        (·.target ∉ declaredIds root.children)).map (Violation.undeclaredTarget ·.target) := by
  rw [← map_target_depicted h, List.filter_map, List.map_map]
  rfl

end References

/-- A rule that is broken ends the reading. -/
theorem throw_bind {α β : Type} (violation : Violation) (f : α → Except Violation β) :
    (throw violation >>= f) = .error violation := rfl

/-- **The rules decide.**  Reading an element tree gives the first rule that it breaks, and the chart
that it shows if it breaks none. -/
theorem ofElement_eq (root : Element) :
    ofElement root = verdict (violations root) (depicted root) := by
  unfold ofElement violations nameViolations
  simp only [throw_bind]
  refine verdict_guard fun _ => ?_
  rw [Vocabulary.checkTree_eq]
  refine verdict_bind fun _ => ?_
  rw [List.append_assoc]
  refine verdict_guard fun _ => verdict_guard fun _ => verdict_guard fun _ => ?_
  have hread : readStates [] root.children =
      verdict (childrenViolations [] root.children) (depicted root).states :=
    readStates_eq [] root.children
  rw [hread]
  refine verdict_bind fun hchildren => ?_
  unfold referenceViolations
  rw [map_id_depicted hchildren, initialName_depicted hchildren]
  refine verdict_guard fun _ => verdict_guard fun _ => ?_
  rw [undeclaredTargets_eq hchildren, ← List.append_nil (List.map _ _)]
  cases hfind : ((depicted root).states.flatMap (·.transitions)).find?
      (·.target ∉ declaredIds root.children) with
  | some t =>
    rw [verdict_of_find?_eq_some hfind]
    rfl
  | none =>
    rw [verdict_of_find?_eq_none hfind]
    rfl

/-- **The language of charts.**  An element tree is read as a chart exactly if it breaks no rule, and
is otherwise turned down for the first rule that it breaks. -/
theorem ofElement_reports_first (root : Element) :
    ((∃ c, ofElement root = .ok c) ↔ violations root = []) ∧
    ∀ violation, ofElement root = .error violation ↔
      (violations root).head? = some violation := by
  rw [ofElement_eq]
  refine ⟨⟨?_, ?_⟩, fun _ => verdict_eq_error_iff⟩
  · rintro ⟨c, hc⟩
    exact (verdict_eq_ok_iff.1 hc).1
  · intro hnone
    exact ⟨_, verdict_eq_ok_iff.2 ⟨hnone, rfl⟩⟩

end Chart

end Statechart
