import Statechart.Proofs.Graph.Reachability
import Statechart.Proofs.Machine.Quiet
set_option autoImplicit false

/-!
# Machines and what the analysis of a graph overlooks

The graph of a chart has an edge for every declared transition, while a machine takes the first one
for an event and lets a state's own transitions hide those of the base state.  So a state may be
listed as reachable that no events make current (`not_attainable_spare`).  This is the only way in
which the analysis is not complete: it is exactly if the transitions that are passed over lead
where a machine gets anyway (`analysis_complete_iff`).
-/

namespace Statechart

open Statechart.Markup

namespace Chart

variable {c : Chart}

/-- A state that some events make current, in every machine with quiet hooks that is started and
handles them. -/
def Attainable (c : Chart) (id : String) : Prop :=
  ∃ events : List String, ∀ {σ : Type} (s : MachineSetup σ) (memory : σ), s.chart = c →
    s.hooks.Quiet →
    s.currentName? (s.afterCalls { memory } (.start :: events.map .push)) = some id

/-- A transition that is open to a state and yet not the one that its event resolves to there. -/
structure PassedOver (c : Chart) (s : State) (t : Transition) : Prop where
  openTo : c.OpenTo s t
  hidden : c.resolve s.id t.event ≠ some t

/-- Where a machine can get, the transitions that are passed over lead where it can get too. -/
def NothingHidden (c : Chart) : Prop :=
  ∀ s ∈ c.states, c.Attainable s.id → ∀ t, c.PassedOver s t → c.Attainable t.target

/-! ## Attainable states -/

/-- The attainable states are those that events lead to from the initial state. -/
theorem WellFormed.attainable_iff (hc : c.WellFormed) {id : String} :
    c.Attainable id ↔ ∃ events, c.followAll c.initial events = id := by
  constructor
  · rintro ⟨events, hevents⟩
    have hrecorded := hevents (MachineSetup.recording c) [] rfl Hooks.quiet_recorder
    rw [MachineSetup.currentName?_afterCalls hc Hooks.quiet_recorder] at hrecorded
    exact ⟨events, Option.some.inj hrecorded⟩
  · rintro ⟨events, rfl⟩
    refine ⟨events, ?_⟩
    rintro σ s memory rfl hq
    exact MachineSetup.currentName?_afterCalls hc hq memory events

theorem WellFormed.attainable_initial (hc : c.WellFormed) : c.Attainable c.initial :=
  hc.attainable_iff.2 ⟨[], rfl⟩

theorem WellFormed.attainable_target (hc : c.WellFormed) {id event : String} {t : Transition}
    (hid : c.Attainable id) (ht : c.resolve id event = some t) : c.Attainable t.target := by
  obtain ⟨events, rfl⟩ := hc.attainable_iff.1 hid
  refine hc.attainable_iff.2 ⟨events ++ [event], ?_⟩
  rw [followAll_concat, follow_of_resolve ht]

/-- If nothing is hidden, every transition that is open to an attainable state leads to one. -/
theorem NothingHidden.attainable_target (hc : c.WellFormed) (h : c.NothingHidden) {s : State}
    (hs : s ∈ c.states) (hid : c.Attainable s.id) {t : Transition} (ht : c.OpenTo s t) :
    c.Attainable t.target := by
  by_cases htaken : c.resolve s.id t.event = some t
  · exact hc.attainable_target hid htaken
  · exact h s hs hid t ⟨ht, htaken⟩

/-- The transition that an event resolves to is a move. -/
theorem WellFormed.move_of_resolve (hc : c.WellFormed) {id event : String} {t : Transition}
    (ht : c.resolve id event = some t) : c.Move id t.target := by
  obtain ⟨s, hs, _⟩ := Option.bind_eq_some_iff.1 ht
  obtain ⟨hmem, rfl⟩ := hc.state?_eq_some_iff.1 hs
  exact ⟨s, hmem, rfl, t, hc.openTo_of_resolve hmem ht, rfl⟩

/-- Events lead along moves. -/
theorem WellFormed.moves_followAll (hc : c.WellFormed) (id : String) (events : List String) :
    Relation.ReflTransGen c.Move id (c.followAll id events) := by
  induction events generalizing id with
  | nil => exact .refl
  | cons event events ih =>
    refine .trans ?_ (ih (c.follow id event))
    cases ht : c.resolve id event with
    | none => rw [follow_of_unresolved ht]
    | some t =>
      rw [follow_of_resolve ht]
      exact .single (hc.move_of_resolve ht)

theorem WellFormed.moves_of_attainable (hc : c.WellFormed) {id : String} (hid : c.Attainable id) :
    Relation.ReflTransGen c.Move c.initial id := by
  obtain ⟨events, rfl⟩ := hc.attainable_iff.1 hid
  exact hc.moves_followAll c.initial events

/-! ## Completeness -/

/-- What the analysis lists as reachable is attainable exactly if nothing is hidden. -/
theorem WellFormed.attainable_reachableStates_iff (hc : c.WellFormed) :
    (∀ id ∈ (Graph.ofChart c).reachableStates, c.Attainable id) ↔ c.NothingHidden := by
  constructor
  · intro hlisted s hs hid t ht
    have hmove : c.Move s.id t.target := ⟨s, hs, rfl, t, ht.openTo, rfl⟩
    exact hlisted _ ((Graph.mem_reachableStates_iff hc).2 ((hc.moves_of_attainable hid).tail hmove))
  · intro h id hid
    -- what is listed lies on a path of moves, and no move leads out of the attainable states
    have hmoves := (Graph.mem_reachableStates_iff hc).1 hid
    clear hid
    induction hmoves with
    | refl => exact hc.attainable_initial
    | tail _ hmove ih =>
      obtain ⟨s, hs, rfl, t, ht, rfl⟩ := hmove
      exact h.attainable_target hc hs ih ht

/-- **When the analysis of a graph is complete for the machine.**  Every state that is listed as
reachable can become current exactly if nothing is hidden; and exactly then every declared state
that cannot become current is listed as unreachable, a base state that is no target apart. -/
theorem analysis_complete_iff (hd : c.IsDocument) :
    ((∀ id ∈ (Graph.ofChart c).reachableStates, c.Attainable id) ↔ c.NothingHidden) ∧
    ((∀ id ∈ c.stateIds, ¬ c.Attainable id →
        id ∈ (Graph.ofChart c).unreachableStates ∨ (c.isBase id = true ∧ id ∉ c.targets)) ↔
      c.NothingHidden) := by
  have hc := hd.wellFormed
  refine ⟨hc.attainable_reachableStates_iff, ?_⟩
  rw [← hc.attainable_reachableStates_iff]
  constructor
  · intro hreported id hid
    obtain ⟨node, hlabel, hnode⟩ := Graph.mem_labelsWhere.1 hid
    have hreachable := List.contains_iff_mem.1 hnode
    have hdeclared : id ∈ c.stateIds := List.mem_of_getElem? hlabel
    refine Classical.not_not.1 fun hnot => ?_
    rcases hreported id hdeclared hnot with hlisted | ⟨_, huntargeted⟩
    · exact Graph.not_mem_unreachableStates hc.nodup_ids hlabel hreachable hlisted
    · -- a reachable state that is no target is the initial one
      obtain ⟨position, hposition⟩ := exists_position? hdeclared
      have hsame := (Graph.mem_reachableStates_ofChart hc hposition).1 hid
      rcases Graph.eq_initial_or_isTarget position hsame with hinitial | htarget
      · refine hnot ?_
        obtain ⟨first, hfirst⟩ := exists_position? hc.initial_mem
        have heq : position = first := by
          rw [hinitial]
          simp [Graph.ofChart, hfirst]
        have hname := getElem?_of_position? hposition
        rw [heq, getElem?_of_position? hfirst] at hname
        exact Option.some.inj hname ▸ hc.attainable_initial
      · exact huntargeted ((Graph.isTarget_ofChart hc hposition).1 htarget)
  · intro hcomplete id hid hnot
    obtain ⟨node, hnode⟩ := exists_position? hid
    have hmissed : node ∉ (Graph.ofChart c).reachableNodes := fun hreachable =>
      hnot (hcomplete id ((Graph.mem_reachableStates_ofChart hc hnode).2 hreachable))
    rw [Graph.mem_unreachableStates_ofChart hc hnode]
    by_cases hspared : c.isBase id = true ∧ id ∉ c.targets
    · exact .inr hspared
    · exact .inl ⟨hspared, hmissed⟩

/-- Nothing is hidden at the door: the transition that would break it at once is passed over, but a
kick breaks it once it is open. -/
theorem analysis_complete_door :
    door.PassedOver ⟨"Closed", [⟨"Open", "Opened", ["Unlock"]⟩, ⟨"Open", "Broken", []⟩,
        ⟨"Kick", "Closed", ["Rattle"]⟩]⟩ ⟨"Open", "Broken", []⟩ ∧
      ∀ id ∈ (Graph.ofChart door).reachableStates, door.Attainable id := by
  have hc := isDocument_door.wellFormed
  have htargets : ∀ t ∈ door.transitions, door.Attainable t.target := by
    have hlisted : ∀ t ∈ door.transitions,
        t.target = "Closed" ∨ t.target = "Opened" ∨ t.target = "Broken" := by decide
    intro t ht
    rcases hlisted t ht with heq | heq | heq
    · exact heq ▸ hc.attainable_iff.2 ⟨[], rfl⟩
    · exact heq ▸ hc.attainable_iff.2 ⟨["Open"], rfl⟩
    · exact heq ▸ hc.attainable_iff.2 ⟨["Open", "Kick"], rfl⟩
  refine ⟨⟨.inl (by decide), by decide⟩, (analysis_complete_iff isDocument_door).1.2 ?_⟩
  exact fun s hs _ t ht => htargets t (mem_transitions_of_openTo hs ht.openTo)

/-! ## A state that is hidden -/

/-- The element tree of a lamp with a second lamp that is never switched on. -/
def lampElement : Element :=
  ⟨"scxml", [⟨"name", "Lamp"⟩],
    [⟨"state", [⟨"id", "Off"⟩],
        [⟨"transition", [⟨"event", "Switch"⟩, ⟨"target", "On"⟩], []⟩,
          ⟨"transition", [⟨"event", "Switch"⟩, ⟨"target", "Spare"⟩], []⟩]⟩,
      ⟨"state", [⟨"id", "On"⟩], []⟩,
      ⟨"state", [⟨"id", "Spare"⟩], []⟩]⟩

/-- The chart of the lamp. -/
def lamp : Chart where
  className := "Lamp"
  package? := none
  initial := "Off"
  base? := none
  debug := false
  states :=
    [⟨"Off", [⟨"Switch", "On", []⟩, ⟨"Switch", "Spare", []⟩]⟩, ⟨"On", []⟩, ⟨"Spare", []⟩]

theorem isDocument_lamp : lamp.IsDocument :=
  have hread : ofElement lampElement = .ok lamp := rfl
  .read hread

theorem follow_lamp {state : String} (hstate : state = "Off" ∨ state = "On") (event : String) :
    lamp.follow state event = "Off" ∨ lamp.follow state event = "On" := by
  rcases hstate with rfl | rfl
  · by_cases hevent : "Switch" = event
    · subst hevent
      exact .inr rfl
    · refine .inl (follow_of_unresolved ?_)
      simp [resolve, state?, baseState?, lamp, State.transitionFor?, hevent]
  · exact .inr (follow_of_unresolved rfl)

theorem followAll_lamp {state : String} (hstate : state = "Off" ∨ state = "On")
    (events : List String) :
    lamp.followAll state events = "Off" ∨ lamp.followAll state events = "On" := by
  induction events generalizing state with
  | nil => exact hstate
  | cons event events ih => exact ih (follow_lamp hstate event)

/-- The analysis lists the spare lamp as reachable, and no events make it current. -/
theorem not_attainable_spare :
    lamp.IsDocument ∧ "Spare" ∈ (Graph.ofChart lamp).reachableStates ∧
    "Spare" ∉ (Graph.ofChart lamp).unreachableStates ∧ lamp.isBase "Spare" = false ∧
    (∀ events : List String, ∀ {σ : Type} (s : MachineSetup σ) (memory : σ), s.chart = lamp →
      s.hooks.Quiet →
      s.currentName? (s.afterCalls { memory } (.start :: events.map .push)) ≠ some "Spare") ∧
    ¬ lamp.Attainable "Spare" := by
  have hc := isDocument_lamp.wellFormed
  have hnode : lamp.position? "Spare" = some 2 := rfl
  have hreachable : 2 ∈ (Graph.ofChart lamp).reachableNodes :=
    Graph.mem_layers_of_mem_next (Graph.position?_initial_mem_reachableNodes rfl)
      ((Graph.mem_moves_ofChart hc rfl).2
        ⟨⟨"Switch", "Spare", []⟩, .inl (by decide), hnode⟩)
      (Graph.mem_nodes_ofChart.2 (by decide))
  have hnever : ∀ events, lamp.followAll lamp.initial events ≠ "Spare" := by
    intro events heq
    rcases followAll_lamp (.inl rfl) events with hoff | hon
    · exact absurd (hoff.symm.trans heq) (by decide)
    · exact absurd (hon.symm.trans heq) (by decide)
  refine ⟨isDocument_lamp, (Graph.mem_reachableStates_ofChart hc hnode).2 hreachable,
    fun hlisted => ((Graph.mem_unreachableStates_ofChart hc hnode).1 hlisted).2 hreachable, rfl,
    ?_, ?_⟩
  · intro events σ s memory hs hq hcurrent
    rw [MachineSetup.currentName?_afterCalls (hs ▸ hc) hq, hs] at hcurrent
    exact hnever events (Option.some.inj hcurrent)
  · intro hattainable
    obtain ⟨events, hevents⟩ := hc.attainable_iff.1 hattainable
    exact hnever events hevents

end Chart

end Statechart
