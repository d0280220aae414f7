import Statechart.Proofs.Chart.Building
import Statechart.Proofs.Chart.Rules
set_option autoImplicit false

/-!
# What a document shows of its elements

A chart that was read is the chart that its element tree shows (`Chart.depicted`), and a document that
was built holds that chart with its views stored.  So every field that the walk over the elements has
filled, and everything that can be asked of the document, is answered by the elements:
`Document.Depicts` lists the questions with their answers.  That the references are closed comes from
`WellFormed`, the rest from the elements themselves.
-/

namespace Statechart

open Statechart.Markup

namespace Chart

/-! ## Names -/

/-- The class is what follows the last separator of a name, the package what precedes it. -/
theorem splitName_spec (name : String) :
    nameSeparator ∉ (splitName name).1.toList ∧
    name.toList =
      match (splitName name).2 with
      | none => (splitName name).1.toList
      | some package => package.toList ++ nameSeparator :: (splitName name).1.toList := by
  have hsplit : name.toList.reverse.takeWhile (· ≠ nameSeparator) ++
      name.toList.reverse.dropWhile (· ≠ nameSeparator) = name.toList.reverse :=
    List.takeWhile_append_dropWhile
  have hclass : nameSeparator ∉ name.toList.reverse.takeWhile (· ≠ nameSeparator) := by
    intro hmem
    simpa using List.all_eq_true.1 List.all_takeWhile _ hmem
  cases hrest : name.toList.reverse.dropWhile (· ≠ nameSeparator) with
  | nil =>
    rw [hrest, List.append_nil] at hsplit
    simp only [splitName, hrest, String.toList_ofList]
    refine ⟨fun hmem => hclass (List.mem_reverse.1 hmem), ?_⟩
    rw [hsplit, List.reverse_reverse]
  | cons separator package =>
    have hseparator : separator = nameSeparator := by
      have hhead := List.head?_dropWhile_not (· ≠ nameSeparator) name.toList.reverse
      rw [hrest] at hhead
      simpa using hhead
    rw [hrest, hseparator] at hsplit
    simp only [splitName, hrest, String.toList_ofList]
    refine ⟨fun hmem => hclass (List.mem_reverse.1 hmem), ?_⟩
    calc name.toList
        = name.toList.reverse.reverse := (List.reverse_reverse _).symm
      _ = (name.toList.reverse.takeWhile (· ≠ nameSeparator) ++
            nameSeparator :: package).reverse := by rw [hsplit]
      _ = package.reverse ++ nameSeparator ::
            (name.toList.reverse.takeWhile (· ≠ nameSeparator)).reverse := by
          rw [List.reverse_append, List.reverse_cons, List.append_assoc, List.singleton_append]

/-- The two parts of a name and the separator between them make up the name. -/
theorem qualifiedName_depicted (root : Element) :
    (depicted root).qualifiedName = root.attr "name" := by
  have hname := (splitName_spec (root.attr "name")).2
  apply String.toList_inj.1
  unfold qualifiedName depicted
  rw [hname]
  cases (splitName (root.attr "name")).2 with
  | none => rfl
  | some package => simp

/-- A name that is not empty and does not end with the separator names a class. -/
theorem className_depicted_ne {root : Element} (h : nameViolations (root.attr "name") = []) :
    (depicted root).className ≠ "" := by
  obtain ⟨hempty, hlast⟩ := List.append_eq_nil_iff.1 h
  rw [brokenIf_eq_nil_iff] at hempty hlast
  intro hclass
  have hname := (splitName_spec (root.attr "name")).2
  have hnil : (splitName (root.attr "name")).1.toList = [] := by
    rw [show (splitName (root.attr "name")).1 = "" from hclass]
    rfl
  cases hpackage : (splitName (root.attr "name")).2 with
  | none =>
    rw [hpackage, hnil] at hname
    exact hempty (String.toList_eq_nil_iff.1 hname)
  | some package =>
    rw [hpackage, hnil] at hname
    exact hlast (by rw [hname, List.getLast?_concat])

/-! ## Elements and transitions -/

/-- The transition elements of a chart element, in document order. -/
def transitionElements (root : Element) : List Element :=
  root.children.flatMap (·.children)

theorem transitions_depicted (root : Element) :
    (depicted root).transitions = (transitionElements root).map .depicted := by
  unfold transitions transitionElements depicted
  rw [List.flatMap_map, List.map_flatMap]
  rfl

/-- A transition of the chart is the transition that some element shows. -/
theorem exists_transition_depicted {root : Element} {P : Transition → Prop} :
    (∃ t ∈ (depicted root).transitions, P t) ↔
      ∃ e ∈ transitionElements root, P (.depicted e) := by
  rw [transitions_depicted]
  constructor
  · rintro ⟨t, ht, hP⟩
    obtain ⟨e, he, rfl⟩ := List.mem_map.1 ht
    exact ⟨e, he, hP⟩
  · rintro ⟨e, he, hP⟩
    exact ⟨_, List.mem_map_of_mem he, hP⟩

theorem mem_actions_depicted {e : Element} {action : String} :
    action ∈ (Transition.depicted e).actions ↔
      (action ≠ "" ∧ e.attr "action" = action) ∨ ∃ a ∈ e.children, a.attr "id" = action := by
  unfold Transition.depicted attributeAction
  split <;> grind

/-- What is found under a declared id has that id. -/
theorem WellFormed.map_id_state? {c : Chart} (hc : c.WellFormed) {id : String}
    (hid : id ∈ c.stateIds) : (c.state? id).map (·.id) = some id := by
  obtain ⟨s, hs, rfl⟩ := List.mem_map.1 hid
  rw [hc.state?_eq_some_iff.2 ⟨hs, rfl⟩]
  rfl

theorem isTerminal_iff {c : Chart} (hc : c.WellFormed) {id : String} :
    c.isTerminal id = true ↔ ∃ s, c.state? id = some s ∧ s.transitions = [] := by
  unfold isTerminal terminalStates State.isTerminal
  simp only [List.any_filter, List.any_eq_true, Bool.and_eq_true, List.isEmpty_iff,
    decide_eq_true_eq, hc.state?_eq_some_iff]
  grind

/-- Without an initial attribute the first state is the initial one. -/
theorem initialState?_eq_head? {root : Element} (hchildren : childrenViolations [] root.children = [])
    (hinitial : root.attr "initial" = "") :
    (depicted root).initialState? = (depicted root).states.head? := by
  have hfirst : (depicted root).initial = ((depicted root).states.map (·.id)).headD "" := by
    rw [map_id_depicted hchildren]
    exact if_pos hinitial
  unfold initialState? state?
  rw [hfirst]
  cases (depicted root).states with
  | nil => rfl
  | cons first rest => simp

theorem terminalStates_depicted (root : Element) :
    (depicted root).terminalStates =
      (root.children.filter (·.children.isEmpty)).map .depicted := by
  unfold terminalStates depicted
  rw [List.filter_map]
  refine congrArg (List.map State.depicted) (List.filter_congr fun e _ => ?_)
  exact List.isEmpty_map

end Chart

namespace Document

open Chart (transitionElements)

/-- A document and the elements that it was built from.  Attributes that occur more than once on an
element count by their first occurrence, and a missing attribute is an empty one. -/
structure Depicts (root : Element) (d : Document) : Prop where
  /-- a state for each child of the root and a transition for each child of that, in order -/
  states : d.states = root.children.map .depicted
  /-- the declared ids are those of the children and those of the states -/
  declared : d.declaredIds = root.children.map (·.attr "id")
  ids : d.states.map (·.id) = d.declaredIds
  id_ne_empty : ∀ id ∈ d.declaredIds, id ≠ ""
  nodup_ids : d.declaredIds.Nodup
  /-- the events, actions and targets are those of the transition elements -/
  events : ∀ event, event ∈ d.events ↔ ∃ t ∈ transitionElements root, t.attr "event" = event
  actions : ∀ action, action ∈ d.actions ↔ ∃ t ∈ transitionElements root,
    (action ≠ "" ∧ t.attr "action" = action) ∨ ∃ a ∈ t.children, a.attr "id" = action
  targets : ∀ target, target ∈ d.targets ↔ ∃ t ∈ transitionElements root, t.attr "target" = target
  /-- each of them is listed once -/
  ordered : d.events.Pairwise (· < ·) ∧ d.actions.Pairwise (· < ·) ∧ d.targets.Pairwise (· < ·)
  /-- the terminal states are those of elements without content, in order -/
  terminalIds : d.terminalIds = (root.children.filter (·.children.isEmpty)).map (·.attr "id")
  terminal : d.terminalStates = (root.children.filter (·.children.isEmpty)).map .depicted
  isTerminal : ∀ id, d.isTerminal id = true ↔ ∃ s, d.state? id = some s ∧ s.transitions = []
  /-- the initial state is the first one unless the attribute names another -/
  initial_first : root.attr "initial" = "" → d.initialState? = d.states.head?
  initial_named : root.attr "initial" ≠ "" →
    d.initialState?.map (·.id) = some (root.attr "initial")
  initial_isSome : d.initialState?.isSome
  /-- there is a base state exactly if the attribute names one -/
  base_none : root.attr "base" = "" → d.baseState? = none
  base_named : root.attr "base" ≠ "" → d.baseState?.map (·.id) = some (root.attr "base")
  /-- every transition leads to a state of the document -/
  target_declared : ∀ s ∈ d.states, ∀ t ∈ s.transitions,
    (d.state? t.target).map (·.id) = some t.target
  /-- looking a state up by its id is looking it up by its position, where its id stands -/
  lookup : ∀ id, d.state? id = (d.position? id).bind (d.states[·]?)
  position : ∀ id i, d.position? id = some i ↔ d.declaredIds[i]? = some id
  /-- package and class make up the name -/
  qualifiedName : d.qualifiedName = root.attr "name"
  className : d.className ≠ "" ∧ Chart.nameSeparator ∉ d.className.toList
  /-- the chart is to be debugged exactly if the attribute says so, in any case -/
  debug : d.debug = true ↔ (root.attr "debug").toList.map Char.toLower = "true".toList

/-- The document of the chart that an element tree shows depicts the tree, if no rule is broken. -/
theorem depicts_ofChart {root : Element} (hnone : Chart.violations root = [])
    (hc : (Chart.depicted root).WellFormed) : (ofChart (Chart.depicted root)).Depicts root := by
  simp only [Chart.violations, List.append_eq_nil_iff] at hnone
  obtain ⟨_, _, hname, _, hchildren, _⟩ := hnone
  have hagrees := agrees_ofChart hc
  have hids : (Chart.depicted root).stateIds = root.children.map (·.attr "id") := List.map_map
  refine {
    states := rfl
    declared := hids
    ids := rfl
    id_ne_empty := ?_
    nodup_ids := hc.nodup_ids
    events := fun _ => Chart.mem_events.trans Chart.exists_transition_depicted
    actions := ?_
    targets := fun _ => Chart.mem_targets.trans Chart.exists_transition_depicted
    ordered := ⟨Text.pairwise_orderedSet _, Text.pairwise_orderedSet _, Text.pairwise_orderedSet _⟩
    terminalIds := ?_
    terminal := hagrees.terminalStates.trans (Chart.terminalStates_depicted root)
    isTerminal := ?_
    initial_first := Chart.initialState?_eq_head? hchildren
    initial_named := ?_
    initial_isSome := ?_
    base_none := ?_
    base_named := ?_
    target_declared := ?_
    lookup := fun _ => List.find?_eq_bind_findIdx?_getElem?
    position := ?_
    qualifiedName := Chart.qualifiedName_depicted root
    className := ⟨Chart.className_depicted_ne hname, (Chart.splitName_spec _).1⟩
    debug := decide_eq_true_iff }
  · intro id hid
    rw [hagrees.declaredIds, hids] at hid
    obtain ⟨e, he, rfl⟩ := List.mem_map.1 hid
    exact (names_of_childrenViolations hchildren he).2.1
  · intro action
    refine (Chart.mem_actions.trans Chart.exists_transition_depicted).trans ?_
    simp only [Chart.mem_actions_depicted]
  · show (Chart.depicted root).terminalStates.map (·.id) = _
    rw [Chart.terminalStates_depicted, List.map_map]
    rfl
  · intro id
    rw [hagrees.isTerminal]
    exact Chart.isTerminal_iff hc
  · intro hgiven
    have hinitial : (Chart.depicted root).initial = root.attr "initial" := if_neg hgiven
    rw [← hinitial]
    exact hc.map_id_state? hc.initial_mem
  · obtain ⟨s, hs, _⟩ := Option.map_eq_some_iff.1 (hc.map_id_state? hc.initial_mem)
    exact Option.isSome_of_eq_some hs
  · intro hempty
    have hbase : (Chart.depicted root).base? = none := if_pos hempty
    rw [hagrees.baseState?, Chart.baseState?, hbase]
    rfl
  · intro hgiven
    have hbase : (Chart.depicted root).base? = some (root.attr "base") := if_neg hgiven
    rw [hagrees.baseState?, Chart.baseState?, hbase]
    exact hc.map_id_state? (hc.base_mem _ hbase)
  · intro s hs t ht
    exact hc.map_id_state? (hc.target_mem t (Chart.mem_transitions.2 ⟨s, hs, ht⟩))
  · intro id i
    rw [hagrees.position?, hc.position?_eq_some_iff, ← List.getElem?_map]
    rfl

/-- **Documents depict their elements**, and store what the charts of these elements show. -/
theorem depicts_of_ofElement {root : Element} {d : Document} (h : Document.ofElement root = .ok d) :
    d.Depicts root ∧ ∃ c, Chart.ofElement root = .ok c ∧ d.Agrees c := by
  rw [Document.ofElement_eq] at h
  cases hread : Chart.ofElement root with
  | error violation =>
    rw [hread] at h
    cases h
  | ok c =>
    rw [hread] at h
    obtain rfl : ofChart c = d := Except.ok.inj h
    have hc := Chart.wellFormed_of_ofElement hread
    refine ⟨?_, c, rfl, agrees_ofChart hc⟩
    rw [Chart.ofElement_eq] at hread
    obtain ⟨hnone, rfl⟩ := verdict_eq_ok_iff.1 hread
    exact depicts_ofChart hnone hc

/-- The document of the door depicts the door. -/
theorem depicts_door :
    Document.ofElement Chart.doorElement = .ok (ofChart Chart.door) ∧
      (ofChart Chart.door).Depicts Chart.doorElement ∧
      ∃ c, Chart.ofElement Chart.doorElement = .ok c ∧ (ofChart Chart.door).Agrees c :=
  have hread : Chart.ofElement Chart.doorElement = .ok Chart.door := rfl
  have hbuilt : Document.ofElement Chart.doorElement = .ok (ofChart Chart.door) :=
    (Document.ofElement_eq _).trans (congrArg (Except.map ofChart) hread)
  ⟨hbuilt, depicts_of_ofElement hbuilt⟩

end Document

end Statechart
