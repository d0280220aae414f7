import Statechart.Proofs.Machine.Quiet
set_option autoImplicit false

/-!
# Machines: refused calls

A machine refuses a start once it has been started, a push before that, and an event that no
transition answers.  The first two are refused before anything is touched.  For the last the machine
has been marked as pushing when it looks the event up, and the mark has to be taken back.

`refused_without_effect` says when each refusal is given, and that nothing else comes of the call.
-/

namespace Statechart

variable {σ : Type}

/-- The state has a transition for the event. -/
def State.Handles (state : State) (event : String) : Prop :=
  ∃ t ∈ state.transitions, t.event = event

instance (state : State) (event : String) : Decidable (state.Handles event) :=
  decidable_of_iff (state.transitions.any (·.event = event) = true) (by simp [State.Handles])

/-- A state finds a transition exactly for the events that it handles. -/
theorem State.transitionFor?_eq_none_iff {state : State} {event : String} :
    state.transitionFor? event = none ↔ ¬ state.Handles event := by
  simp [State.transitionFor?, State.Handles]

namespace Chart

variable {c : Chart} {id event : String}

/-- Some state of the chart has a transition for the event. -/
def Declares (c : Chart) (event : String) : Prop :=
  ∃ state ∈ c.states, state.Handles event

/-- Neither the state with this id nor the base state has a transition for the event. -/
def Ignores (c : Chart) (id event : String) : Prop :=
  ∀ state ∈ c.states, state.id = id ∨ c.base? = some state.id → ¬ state.Handles event

instance (c : Chart) (event : String) : Decidable (c.Declares event) :=
  decidable_of_iff (c.states.any (·.Handles event) = true) (by simp [Declares])

instance (c : Chart) (id event : String) : Decidable (c.Ignores id event) :=
  decidable_of_iff
    (c.states.all (fun state =>
      (state.id = id ∨ c.base? = some state.id) → ¬ state.Handles event) = true)
    (by simp only [Ignores, List.all_eq_true, decide_eq_true_eq])

/-- The declared events are the events of the chart. -/
theorem declares_iff : c.Declares event ↔ event ∈ c.events := by
  rw [mem_events]
  constructor
  · rintro ⟨state, hstate, t, ht, hevent⟩
    exact ⟨t, mem_transitions.2 ⟨state, hstate, ht⟩, hevent⟩
  · rintro ⟨t, ht, hevent⟩
    obtain ⟨state, hstate, ht⟩ := mem_transitions.1 ht
    exact ⟨state, hstate, t, ht, hevent⟩

/-- The base state is the one with the id that the chart gives. -/
theorem WellFormed.baseState?_eq_some_iff (hc : c.WellFormed) {base : State} :
    c.baseState? = some base ↔ base ∈ c.states ∧ c.base? = some base.id := by
  unfold baseState?
  rw [Option.bind_eq_some_iff]
  constructor
  · rintro ⟨name, hname, hbase⟩
    obtain ⟨hmem, rfl⟩ := hc.state?_eq_some_iff.1 hbase
    exact ⟨hmem, hname⟩
  · rintro ⟨hmem, hname⟩
    exact ⟨base.id, hname, hc.state?_eq_some_iff.2 ⟨hmem, rfl⟩⟩

/-- An event resolves to no transition in a state exactly if the state ignores it. -/
theorem WellFormed.resolve_eq_none_iff (hc : c.WellFormed) (hid : id ∈ c.stateIds) :
    c.resolve id event = none ↔ c.Ignores id event := by
  obtain ⟨state, hstate, rfl⟩ := List.mem_map.1 hid
  have hfound : c.state? state.id = some state := hc.state?_eq_some_iff.2 ⟨hstate, rfl⟩
  unfold resolve
  rw [hfound, Option.bind_some, Option.or_eq_none_iff, State.transitionFor?_eq_none_iff,
    Option.bind_eq_none_iff]
  constructor
  · rintro ⟨hown, hbase⟩ other hother (heq | hname)
    · obtain rfl : other = state := by
        have hsame := hc.state?_eq_some_iff.2 ⟨hother, heq⟩
        exact Option.some.inj (hsame.symm.trans hfound)
      exact hown
    · exact State.transitionFor?_eq_none_iff.1
        (hbase other (hc.baseState?_eq_some_iff.2 ⟨hother, hname⟩))
  · intro hignores
    refine ⟨hignores state hstate (.inl rfl), ?_⟩
    intro base hbase
    obtain ⟨hmem, hname⟩ := hc.baseState?_eq_some_iff.1 hbase
    exact State.transitionFor?_eq_none_iff.2 (hignores base hmem (.inr hname))

end Chart

namespace MachineSetup

variable {s : MachineSetup σ} {m : Machine σ} {state event : String}

/-- The current state is a state of the chart. -/
theorem mem_stateIds_of_currentName? (hstate : s.currentName? m = some state) :
    state ∈ s.chart.stateIds := by
  obtain ⟨i, _, hname⟩ := Option.bind_eq_some_iff.1 hstate
  obtain ⟨found, hfound, rfl⟩ := Option.map_eq_some_iff.1 hname
  exact List.mem_map_of_mem (List.mem_of_getElem? hfound)

/-- A push that finds its transition fails for one of two reasons: a hook pushed an event, or a hook
returned the error itself. -/
theorem error_of_resolve (hm : m.Idle s.chart) (hstate : s.currentName? m = some state)
    {t : Transition} (ht : s.chart.resolve state event = some t) {e : MachineError}
    (hout : (s.perform (.push event) m).outcome = .error e) :
    (∃ pushed ∈ pushedEvents (s.perform (.push event) m).trace, e = .reentrant pushed) ∨
      ∃ h ∈ s.pushSteps event m, h.returned s = .error e := by
  obtain ⟨row, hrow, htrace, houtcome, _⟩ :=
    performed_push (hm.accepts event) hm.rejected hstate ht
  have hpushes : pushedEvents (s.perform (.push event) m).trace = pushedEvents row.trace := by
    rw [htrace, pushedEvents_append, pushedEvents_notify, List.nil_append]
  rw [houtcome] at hout
  cases hpushed : pushedEvents row.trace with
  | cons pushed rest =>
    refine .inl ⟨pushed, ?_, ?_⟩
    · rw [hpushes, hpushed]
      exact List.mem_cons_self
    · have hreentrant := hrow.outcome_of_pushed hm.ready (by rw [hpushed]; rfl)
      exact Except.error.inj (hout.symm.trans hreentrant)
  | nil =>
    rcases hrow.outcome_of_unpushed hm.ready hpushed with hok | ⟨h, hmem, hreturned⟩
    · rw [hok] at hout
      cases hout
    · exact .inr ⟨h, hmem, hreturned.symm.trans hout⟩

/-- An error that is neither a reentrancy nor made up by a hook means that no transition was
found. -/
theorem unresolved_of_error (hm : m.Idle s.chart) (hstate : s.currentName? m = some state)
    {e : MachineError} (hgenuine : ∀ h ∈ s.pushSteps event m, h.returned s ≠ .error e)
    (hplain : ∀ pushed, e ≠ .reentrant pushed)
    (hout : (s.perform (.push event) m).outcome = .error e) :
    s.chart.resolve state event = none := by
  cases ht : s.chart.resolve state event with
  | none => rfl
  | some t =>
    rcases error_of_resolve hm hstate ht hout with ⟨pushed, _, he⟩ | ⟨h, hmem, hreturned⟩
    · exact absurd he (hplain pushed)
    · exact absurd hreturned (hgenuine h hmem)

/-- An event that no transition is for is refused as unknown. -/
theorem push_of_undeclared (hc : s.chart.WellFormed) (hm : m.Idle s.chart)
    (hstate : s.currentName? m = some state) (hnot : ¬ s.chart.Declares event) :
    s.perform (.push event) m = .answer m (.error (.unknownEvent event)) := by
  have hignored : s.chart.Ignores state event := by
    intro found hfound _ hhandles
    exact hnot ⟨found, hfound, hhandles⟩
  have hnone := (hc.resolve_eq_none_iff (mem_stateIds_of_currentName? hstate)).2 hignored
  rw [push_of_unresolved hm hstate hnone, if_neg (mt Chart.declares_iff.2 hnot)]

/-- An event that other states have transitions for is refused as unhandled. -/
theorem push_of_ignored (hc : s.chart.WellFormed) (hm : m.Idle s.chart)
    (hstate : s.currentName? m = some state) (hdeclared : s.chart.Declares event)
    (hignored : s.chart.Ignores state event) :
    s.perform (.push event) m = .answer m (.error (.unhandled event state)) := by
  have hnone := (hc.resolve_eq_none_iff (mem_stateIds_of_currentName? hstate)).2 hignored
  rw [push_of_unresolved hm hstate hnone, if_pos (Chart.declares_iff.1 hdeclared)]

/-- **Refused calls have no effect**, at every moment of a machine's life and for arbitrary hooks.
A start of a started machine, a push to a machine that is not started and, while no push is in
progress, a push that finds no transition are answered at once: by the error, with the machine as it
was, and without a call of a hook or a word to the observer.  An event is unknown exactly if no
transition of the chart is for it, and unhandled exactly if it is known and neither the current
state nor the base state has a transition for it, unless a hook makes the error up. -/
theorem refused_without_effect (hd : s.chart.IsDocument) {stack : List Request}
    (hm : s.Moment stack m) :
    (m.lifecycle = .started → s.perform .start m = .answer m (.error .alreadyStarted)) ∧
    (m.lifecycle = .notStarted →
      ∀ event, s.perform (.push event) m = .answer m (.error .notStarted)) ∧
    (m.lifecycle = .started → (∀ e, .push e ∉ stack) →
      ∃ state, s.currentName? m = some state ∧ ∀ event,
        (¬ s.chart.Declares event →
          s.perform (.push event) m = .answer m (.error (.unknownEvent event))) ∧
        (s.chart.Declares event → s.chart.Ignores state event →
          s.perform (.push event) m = .answer m (.error (.unhandled event state))) ∧
        ((∀ h ∈ s.pushSteps event m, h.returned s ≠ .error (.unknownEvent event)) →
          ((s.perform (.push event) m).outcome = .error (.unknownEvent event) ↔
            ¬ s.chart.Declares event)) ∧
        ((∀ h ∈ s.pushSteps event m, h.returned s ≠ .error (.unhandled event state)) →
          ((s.perform (.push event) m).outcome = .error (.unhandled event state) ↔
            s.chart.Declares event ∧ s.chart.Ignores state event))) := by
  have hc := hd.wellFormed
  refine ⟨fun hstarted => perform_of_refuse? (refuse?_start_of_started hstarted), ?_, ?_⟩
  · intro hnot event
    apply perform_of_refuse?
    simp only [refuse?, hnot]
  · intro hstarted hquiet
    have hcons := hm.consistent hc
    have hidle : m.Idle s.chart := ⟨hcons.settled hquiet, hcons.toPlaced, hstarted⟩
    obtain ⟨state, hstate⟩ := hcons.toPlaced.exists_name hstarted
    refine ⟨state, hstate, ?_⟩
    intro event
    have hunknown : ¬ s.chart.Declares event → _ := push_of_undeclared hc hidle hstate
    have hunhandled : s.chart.Declares event → _ := push_of_ignored hc hidle hstate
    have hignored : s.chart.resolve state event = none → s.chart.Ignores state event :=
      (hc.resolve_eq_none_iff (mem_stateIds_of_currentName? hstate)).1
    refine ⟨hunknown, hunhandled, ?_, ?_⟩
    · intro hgenuine
      refine ⟨?_, fun hnot => congrArg Run.outcome (hunknown hnot)⟩
      intro hout hdeclared
      have hnone := unresolved_of_error hidle hstate hgenuine (by simp) hout
      rw [hunhandled hdeclared (hignored hnone)] at hout
      cases hout
    · intro hgenuine
      refine ⟨?_, fun h => congrArg Run.outcome (hunhandled h.1 h.2)⟩
      intro hout
      have hnone := unresolved_of_error hidle hstate hgenuine (by simp) hout
      refine ⟨Classical.not_not.1 fun hnot => ?_, hignored hnone⟩
      rw [hunknown hnot] at hout
      cases hout

/-- The kicked door after it has been started and somebody has tried to open it in vain. -/
def rattledDoor : Machine (List Nat) :=
  kickedDoor.afterCalls (.ofRules kickingHooks) [.start, .push "Open"]

/-- The door still refuses: it knows no bell, and it is closed already. -/
theorem refused_without_effect_kickedDoor :
    kickedDoor.perform .start rattledDoor = .answer rattledDoor (.error .alreadyStarted) ∧
    kickedDoor.perform (.push "Ring") rattledDoor =
      .answer rattledDoor (.error (.unknownEvent "Ring")) ∧
    kickedDoor.perform (.push "Close") rattledDoor =
      .answer rattledDoor (.error (.unhandled "Close" "Closed")) := by
  have hm : kickedDoor.Moment [] rattledDoor :=
    ((Moment.created _).returned .start).returned (.push "Open")
  have hstarted : rattledDoor.lifecycle = .started := rfl
  obtain ⟨hstart, _, hpush⟩ := refused_without_effect Chart.isDocument_door hm
  obtain ⟨state, hstate, hanswers⟩ := hpush hstarted fun _ => List.not_mem_nil
  have hclosed : kickedDoor.currentName? rattledDoor = some "Closed" := rfl
  obtain rfl : "Closed" = state := Option.some.inj (hclosed.symm.trans hstate)
  refine ⟨hstart hstarted, (hanswers "Ring").1 ?_, (hanswers "Close").2.1 ?_ ?_⟩
  · decide
  · decide
  · decide

end MachineSetup

end Statechart
