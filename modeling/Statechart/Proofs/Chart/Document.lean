import Statechart.Chart.OfElement
set_option autoImplicit false

/-!
# Charts of documents

A chart is only ever read off an element tree, and may be given another class name afterwards
(`IsDocument`).  Such a chart is closed under its own references: no id is declared twice, and the
initial state, the base state and every target are declared (`WellFormed`).  Looking a declared id
up and going back from the position to the id then gives the id again.
-/

namespace Statechart

open Statechart.Markup

/-! ## Reading states -/

/-- A state that was read has an id that no state before it has. -/
theorem State.id_not_mem_of_ofElement {declared : List String} {e : Element} {state : State}
    (h : State.ofElement declared e = .ok state) : state.id ∉ declared := by
  unfold State.ofElement at h
  simp only [bind, Except.bind, pure, Except.pure] at h
  split at h
  · cases h
  split at h
  · cases h
  rename_i hnew
  split at h
  · cases h
  cases h
  exact hnew

/-- States that were read have ids that differ from each other and from those declared before. -/
theorem nodup_of_readStates {declared : List String} {es : List Element} {states : List State}
    (h : readStates declared es = .ok states) :
    (states.map (·.id)).Nodup ∧ ∀ id ∈ states.map (·.id), id ∉ declared := by
  induction es generalizing declared states with
  | nil =>
    simp only [readStates] at h
    cases h
    exact ⟨List.nodup_nil, fun id hid => nomatch hid⟩
  | cons e es ih =>
    simp only [readStates, bind, Except.bind, pure, Except.pure] at h
    split at h
    · cases h
    split at h
    · cases h
    rename_i state hstate
    split at h
    · cases h
    rename_i rest hrest
    cases h
    obtain ⟨hnodup, hnew⟩ := ih hrest
    have hhead : state.id ∉ rest.map (·.id) := by
      intro hmem
      exact hnew _ hmem (by simp)
    refine ⟨List.nodup_cons.2 ⟨hhead, hnodup⟩, ?_⟩
    intro id hid
    rcases List.mem_cons.1 hid with rfl | hid
    · exact State.id_not_mem_of_ofElement hstate
    · intro hdeclared
      exact hnew id hid (List.mem_append_left _ hdeclared)

namespace Chart

/-! ## Reading charts -/

/-- What holds of an element tree that was read as a chart, and the chart that it gives. -/
theorem ofElement_eq_ok {root : Element} {c : Chart} (h : ofElement root = .ok c) :
    ∃ states : List State,
      readStates [] root.children = .ok states ∧
      (root.attr "base" ≠ "" → root.attr "base" ∈ states.map (·.id)) ∧
      initialName root states ∈ states.map (·.id) ∧
      (∀ t ∈ states.flatMap (·.transitions), t.target ∈ states.map (·.id)) ∧
      c = {
        className := (splitName (root.attr "name")).1
        package? := (splitName (root.attr "name")).2
        initial := initialName root states
        base? := if root.attr "base" = "" then none else some (root.attr "base")
        debug := saysTrue (root.attr "debug")
        states } := by
  unfold ofElement at h
  simp only [bind, Except.bind, throw, throwThe, MonadExceptOf.throw, pure, Except.pure] at h
  -- the checks on the root element come first; they leave nothing to remember
  split at h
  · cases h
  split at h
  · cases h
  split at h
  · cases h
  split at h
  · cases h
  split at h
  · cases h
  split at h
  · cases h
  rename_i states hstates
  split at h
  · cases h
  rename_i hbase
  split at h
  · cases h
  rename_i hinitial
  split at h
  · cases h
  rename_i htargets
  have hclosed : ∀ t ∈ states.flatMap (·.transitions), t.target ∈ states.map (·.id) := by
    intro t ht
    simpa using List.find?_eq_none.1 htargets t ht
  refine ⟨states, hstates, ?_, Classical.not_not.1 hinitial, hclosed, (Except.ok.inj h).symm⟩
  intro hne
  exact Classical.not_not.1 fun hmem => hbase ⟨hne, hmem⟩

/-- Charts that are read off element trees, under their own class name or another. -/
inductive IsDocument : Chart → Prop where
  | read {root : Element} {c : Chart} (h : ofElement root = .ok c) : IsDocument c
  | renamed {c : Chart} (h : IsDocument c) (className : String) : IsDocument (c.rename className)

/-- A chart whose ids are distinct and whose references are all to declared states. -/
structure WellFormed (c : Chart) : Prop where
  nodup_ids : c.stateIds.Nodup
  initial_mem : c.initial ∈ c.stateIds
  base_mem : ∀ id, c.base? = some id → id ∈ c.stateIds
  target_mem : ∀ t ∈ c.transitions, t.target ∈ c.stateIds

theorem wellFormed_of_ofElement {root : Element} {c : Chart} (h : ofElement root = .ok c) :
    c.WellFormed := by
  obtain ⟨states, hstates, hbase, hinitial, htargets, rfl⟩ := ofElement_eq_ok h
  refine ⟨(nodup_of_readStates hstates).1, hinitial, ?_, htargets⟩
  intro id hid
  by_cases hempty : root.attr "base" = ""
  · simp [hempty] at hid
  · simp only [if_neg hempty, Option.some.injEq] at hid
    exact hid ▸ hbase hempty

/-- The class name plays no part in the references. -/
theorem WellFormed.rename {c : Chart} (h : c.WellFormed) (className : String) :
    (c.rename className).WellFormed :=
  ⟨h.nodup_ids, h.initial_mem, h.base_mem, h.target_mem⟩

theorem IsDocument.wellFormed {c : Chart} (h : c.IsDocument) : c.WellFormed := by
  induction h with
  | read h => exact wellFormed_of_ofElement h
  | renamed _ className ih => exact ih.rename className

/-! ## Lookups -/

/-- What is looked up under a key that no other member has is that member. -/
theorem find?_eq_some_iff_of_nodup {α : Type} {key : α → String} {xs : List α}
    (hnodup : (xs.map key).Nodup) {k : String} {x : α} :
    xs.find? (key · = k) = some x ↔ x ∈ xs ∧ key x = k := by
  constructor
  · intro h
    exact ⟨List.mem_of_find?_eq_some h, by simpa using List.find?_some h⟩
  · rintro ⟨hmem, rfl⟩
    induction xs with
    | nil => exact nomatch hmem
    | cons y ys ih =>
      obtain ⟨hnew, hrest⟩ := List.nodup_cons.1 hnodup
      rcases List.mem_cons.1 hmem with rfl | hin
      · simp
      · have hne : key y ≠ key x := fun heq => hnew (heq ▸ List.mem_map_of_mem hin)
        rw [List.find?_cons_of_neg (by simpa using hne)]
        exact ih hrest hin

/-- A state is found under its id. -/
theorem WellFormed.state?_eq_some_iff {c : Chart} (h : c.WellFormed) {id : String} {s : State} :
    c.state? id = some s ↔ s ∈ c.states ∧ s.id = id :=
  find?_eq_some_iff_of_nodup h.nodup_ids

/-- A position that was found holds the id that was looked up. -/
theorem getElem?_of_position? {c : Chart} {id : String} {i : Nat} (h : c.position? id = some i) :
    (c.states[i]?).map (·.id) = some id := by
  obtain ⟨hi, hid, _⟩ := List.findIdx?_eq_some_iff_getElem.1 h
  rw [List.getElem?_eq_getElem hi]
  simpa using hid

/-- A position that was found is that of a state. -/
theorem exists_state_of_position? {c : Chart} {id : String} {i : Nat}
    (h : c.position? id = some i) : ∃ s, c.states[i]? = some s ∧ s.id = id :=
  Option.map_eq_some_iff.1 (getElem?_of_position? h)

/-- A state is at the position that is found for its id. -/
theorem WellFormed.getElem?_position? {c : Chart} (hc : c.WellFormed) {s : State}
    (hs : s ∈ c.states) {i : Nat} (hi : c.position? s.id = some i) : c.states[i]? = some s := by
  obtain ⟨s', hs', hid⟩ := exists_state_of_position? hi
  have hfound : c.state? s.id = some s' :=
    hc.state?_eq_some_iff.2 ⟨List.mem_of_getElem? hs', hid⟩
  rw [hc.state?_eq_some_iff.2 ⟨hs, rfl⟩] at hfound
  rw [hs', ← hfound]

theorem position?_lt {c : Chart} {id : String} {i : Nat} (h : c.position? id = some i) :
    i < c.states.length :=
  (List.findIdx?_eq_some_iff_getElem.1 h).1

/-- Every declared id is found. -/
theorem exists_position? {c : Chart} {id : String} (h : id ∈ c.stateIds) :
    ∃ i, c.position? id = some i := by
  obtain ⟨s, hs, rfl⟩ := List.mem_map.1 h
  cases hp : c.position? s.id with
  | some i => exact ⟨i, rfl⟩
  | none =>
    have := List.findIdx?_eq_none_iff.1 hp s hs
    simp at this

/-- Every target is found. -/
theorem WellFormed.exists_position?_target {c : Chart} (hc : c.WellFormed) {s : State}
    (hs : s ∈ c.states) {t : Transition} (ht : t ∈ s.transitions) :
    ∃ i, c.position? t.target = some i :=
  exists_position? (hc.target_mem t (mem_transitions.2 ⟨s, hs, ht⟩))

/-- An id is found where it stands, and nowhere else. -/
theorem WellFormed.position?_eq_some_iff {c : Chart} (hc : c.WellFormed) {id : String} {i : Nat} :
    c.position? id = some i ↔ (c.states[i]?).map (·.id) = some id := by
  refine ⟨getElem?_of_position?, fun hi => ?_⟩
  have hid : c.stateIds[i]? = some id := List.getElem?_map.trans hi
  obtain ⟨j, hj⟩ := exists_position? (List.mem_of_getElem? hid)
  have hfound : c.stateIds[j]? = some id := List.getElem?_map.trans (getElem?_of_position? hj)
  obtain ⟨hlt, _⟩ := List.getElem?_eq_some_iff.1 hid
  obtain rfl : i = j := (List.getElem?_inj hlt hc.nodup_ids).1 (hid.trans hfound.symm)
  exact hj

theorem WellFormed.position?_of_getElem? {c : Chart} (hc : c.WellFormed) {s : State} {i : Nat}
    (hs : c.states[i]? = some s) : c.position? s.id = some i :=
  hc.position?_eq_some_iff.2 (congrArg _ hs)

/-- The base state is one of the chart's. -/
theorem mem_states_of_baseState? {c : Chart} {base : State} (h : c.baseState? = some base) :
    base ∈ c.states := by
  obtain ⟨id, _, hid⟩ := Option.bind_eq_some_iff.1 h
  exact List.mem_of_find?_eq_some hid

/-- A transition that an event resolves to is one of the chart's. -/
theorem mem_transitions_of_resolve {c : Chart} {id event : String} {t : Transition}
    (h : c.resolve id event = some t) : t ∈ c.transitions := by
  obtain ⟨s, hs, ht⟩ := Option.bind_eq_some_iff.1 h
  rw [mem_transitions]
  rcases Option.or_eq_some_iff.1 ht with ht | ⟨_, ht⟩
  · exact ⟨s, List.mem_of_find?_eq_some hs, List.mem_of_find?_eq_some ht⟩
  · obtain ⟨base, hb, ht⟩ := Option.bind_eq_some_iff.1 ht
    exact ⟨base, mem_states_of_baseState? hb, List.mem_of_find?_eq_some ht⟩

/-- An event that resolves to a transition is the event of that transition. -/
theorem event_of_resolve {c : Chart} {id event : String} {t : Transition}
    (h : c.resolve id event = some t) : t.event = event := by
  obtain ⟨s, _, ht⟩ := Option.bind_eq_some_iff.1 h
  rcases Option.or_eq_some_iff.1 ht with ht | ⟨_, ht⟩
  · simpa using List.find?_some ht
  · obtain ⟨base, _, ht⟩ := Option.bind_eq_some_iff.1 ht
    simpa using List.find?_some ht

/-! ## An example: a door

A state with two transitions for one event, an event that the base state shares with another state,
and a transition with two actions. -/

/-- The element tree of a door. -/
def doorElement : Element :=
  ⟨"scxml", [⟨"name", "home.Door"⟩, ⟨"base", "Anywhere"⟩, ⟨"debug", "true"⟩],
    [⟨"state", [⟨"id", "Closed"⟩],
        [⟨"transition", [⟨"event", "Open"⟩, ⟨"target", "Opened"⟩, ⟨"action", "Unlock"⟩], []⟩,
          ⟨"transition", [⟨"event", "Open"⟩, ⟨"target", "Broken"⟩], []⟩,
          ⟨"transition", [⟨"event", "Kick"⟩, ⟨"target", "Closed"⟩, ⟨"action", "Rattle"⟩], []⟩]⟩,
      ⟨"state", [⟨"id", "Opened"⟩],
        [⟨"transition", [⟨"event", "Close"⟩, ⟨"target", "Closed"⟩], []⟩]⟩,
      ⟨"state", [⟨"id", "Broken"⟩], []⟩,
      ⟨"state", [⟨"id", "Anywhere"⟩],
        [⟨"transition", [⟨"event", "Kick"⟩, ⟨"target", "Broken"⟩, ⟨"action", "Smash"⟩],
            [⟨"action", [⟨"id", "Sweep"⟩], []⟩]⟩]⟩]⟩

/-- The chart of a door. -/
def door : Chart where
  className := "Door"
  package? := some "home"
  initial := "Closed"
  base? := some "Anywhere"
  debug := true
  states :=
    [⟨"Closed", [⟨"Open", "Opened", ["Unlock"]⟩, ⟨"Open", "Broken", []⟩,
        ⟨"Kick", "Closed", ["Rattle"]⟩]⟩,
      ⟨"Opened", [⟨"Close", "Closed", []⟩]⟩,
      ⟨"Broken", []⟩,
      ⟨"Anywhere", [⟨"Kick", "Broken", ["Smash", "Sweep"]⟩]⟩]

theorem isDocument_door : door.IsDocument :=
  have hread : ofElement doorElement = .ok door := rfl
  .read hread

end Chart

end Statechart
