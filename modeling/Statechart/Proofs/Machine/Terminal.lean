import Statechart.Proofs.Chart.Depiction
import Statechart.Proofs.Machine.Descent
import Statechart.Proofs.Machine.Quiet
import Statechart.Proofs.Machine.SingleFlight
set_option autoImplicit false

/-!
# Machines in terminal states

Whether a machine is in a terminal state is read off a list of ids, and the current state off a
position.  The two agree at every moment, inside hooks and before the start too, because the machine
has a current state exactly when it has been started (`Reached.placed`).

A terminal state has no transition of its own, so only those of the base state lead out of it.  If
there are none, nothing that is asked of the machine has an effect any more.
-/

namespace Statechart

variable {σ : Type}

/-! ## Where a machine is at every moment -/

/-- Only a call that is being carried out has hook calls still to make. -/
theorem Config.active_ne_nil_of_mem_pending {c : Config σ} {call : HookCall}
    (h : call ∈ c.pending) : c.active ≠ [] := by
  intro hnone
  obtain ⟨hcontrol, hwaiting⟩ := List.append_eq_nil_iff.1 hnone
  rcases List.mem_append.1 h with hrest | hrest
  · cases hc : c.control with
    | calling request => simp [hc, Control.rest] at hrest
    | returning outcome => simp [hc, Control.rest] at hrest
    | _ => simp [hc, Control.active?] at hcontrol
  · obtain ⟨hook, hhook, _⟩ := List.mem_flatMap.1 hrest
    rw [List.map_eq_nil_iff.1 hwaiting] at hhook
    exact absurd hhook List.not_mem_nil

/-- Without transitions of its own and of the base state a state has no answer to any event. -/
theorem Chart.resolve_eq_none {c : Chart} {state : State}
    (hfound : c.state? state.id = some state) (hstate : state.transitions = [])
    (hbase : ∀ base, c.baseState? = some base → base.transitions = []) (event : String) :
    c.resolve state.id event = none := by
  unfold Chart.resolve
  rw [hfound, Option.bind_some, Option.or_eq_none_iff, Option.bind_eq_none_iff]
  refine ⟨?_, fun base hsome => ?_⟩
  · rw [State.transitionFor?, hstate, List.find?_nil]
  · rw [State.transitionFor?, hbase base hsome, List.find?_nil]

namespace MachineSetup

variable {s : MachineSetup σ}

/-- The machine has a current state exactly when it has been started, and every target that is still
to be entered is declared. -/
structure Located (s : MachineSetup σ) (c : Config σ) : Prop where
  placed : c.machine.Placed s.chart
  pending : ∀ target, .stateChange target ∈ c.pending → target ∈ s.chart.stateIds

/-- What leaves lifecycle and current state alone and adds no hook calls keeps the invariant. -/
theorem Located.of_eq {c d : Config σ} (h : s.Located c) (hpending : d.pending ⊆ c.pending)
    (hlifecycle : d.machine.lifecycle = c.machine.lifecycle)
    (hcurrent : d.machine.current? = c.machine.current?) : s.Located d :=
  ⟨h.placed.of_eq hlifecycle hcurrent, fun target htarget => h.pending target (hpending htarget)⟩

/-- Every step keeps the invariant. -/
theorem located_shift (hc : s.chart.WellFormed) {c d : Config σ} (hguarded : c.Guarded)
    (h : s.Located c) (hshift : s.Shift c d) : s.Located d := by
  cases hshift with
  | quiet _ hpending hsituation =>
    obtain ⟨hlifecycle, hcurrent, _⟩ := Machine.eq_of_situation hsituation
    exact h.of_eq hpending hlifecycle hcurrent
  | started _ _ hpending hsituation =>
    obtain ⟨hlifecycle, hcurrent, _⟩ := Machine.eq_of_situation hsituation
    exact ⟨.of_position hc.initial_mem hlifecycle hcurrent,
      fun target htarget => h.pending target (hpending htarget)⟩
  | pushed _ hstarted _ _ hpending hsituation =>
    obtain ⟨hlifecycle, hcurrent, _⟩ := Machine.eq_of_situation hsituation
    exact h.of_eq hpending (hlifecycle.trans hstarted.symm) hcurrent
  | @resolved state event t hstate ht _ hpending hsituation =>
    obtain ⟨hlifecycle, hcurrent, _⟩ := Machine.eq_of_situation hsituation
    refine ⟨h.placed.of_eq hlifecycle hcurrent, ?_⟩
    intro target htarget
    rcases List.mem_append.1 (hpending htarget) with hplan | hold
    · obtain rfl : target = t.target := by simpa [Transition.plan] using hplan
      exact hc.target_mem t (Chart.mem_transitions_of_resolve ht)
    · exact h.pending target hold
  | entered target htarget _ hpending hsituation =>
    obtain ⟨hlifecycle, hcurrent, _⟩ := Machine.eq_of_situation hsituation
    -- a target is only entered by a push, which found the machine started
    have hstarted := hguarded.started (Config.active_ne_nil_of_mem_pending htarget)
    exact ⟨.of_position (h.pending target htarget) (hlifecycle.trans hstarted) hcurrent,
      fun target htarget => h.pending target (hpending htarget)⟩
  | startDone _ hpending hsituation =>
    obtain ⟨hlifecycle, hcurrent, _⟩ := Machine.eq_of_situation hsituation
    exact h.of_eq hpending hlifecycle hcurrent
  | pushDone _ _ hpending hsituation =>
    obtain ⟨hlifecycle, hcurrent, _⟩ := Machine.eq_of_situation hsituation
    exact h.of_eq hpending hlifecycle hcurrent

theorem Reached.located (hc : s.chart.WellFormed) {c : Config σ} (h : s.Reached c) :
    s.Located c := by
  induction h with
  | first memory request =>
    refine ⟨(Moment.created memory).consistent hc |>.toPlaced, ?_⟩
    exact fun target htarget => absurd htarget List.not_mem_nil
  | again _ _ _ request ih => exact ih.of_eq (List.nil_subset _) rfl rfl
  | step hreached hstep ih => exact located_shift hc hreached.guarded ih (shift_of_step hstep)

/-- **A machine has a current state exactly when it has been started**, at every moment. -/
theorem Reached.placed (hc : s.chart.WellFormed) {c : Config σ} (h : s.Reached c) :
    c.machine.Placed s.chart :=
  (h.located hc).placed

/-! ## Terminal states -/

/-- The state that a machine is in. -/
def currentState? (s : MachineSetup σ) (m : Machine σ) : Option State :=
  m.current?.bind fun position => s.chart.states[position]?

theorem currentName?_eq (m : Machine σ) : s.currentName? m = (s.currentState? m).map (·.id) := by
  unfold currentName? currentState?
  rw [Option.map_bind]
  rfl

theorem mem_states_of_currentState? {m : Machine σ} {state : State}
    (h : s.currentState? m = some state) : state ∈ s.chart.states := by
  obtain ⟨position, _, hposition⟩ := Option.bind_eq_some_iff.1 h
  exact List.mem_of_getElem? hposition

/-- The list of terminal ids and the current state agree on what is terminal. -/
theorem terminal_iff_currentState? (hc : s.chart.WellFormed) (m : Machine σ) :
    (s.view m).terminal = true ↔
      ∃ state, s.currentState? m = some state ∧ state.transitions = [] := by
  have hview : (s.view m).terminal = ((s.currentState? m).map (·.id)).any s.chart.isTerminal :=
    congrArg (Option.any s.chart.isTerminal) (currentName?_eq m)
  rw [hview]
  cases hstate : s.currentState? m with
  | none => simp
  | some state =>
    have hfound : s.chart.state? state.id = some state :=
      hc.state?_eq_some_iff.2 ⟨mem_states_of_currentState? hstate, rfl⟩
    simp [Chart.isTerminal_iff hc, hfound]

/-! ## Standstill -/

/-- The machine after calls is at a moment at which nothing is in progress. -/
theorem moment_afterCalls {m : Machine σ} (hm : s.Moment [] m) (requests : List Request) :
    s.Moment [] (s.afterCalls m requests) := by
  induction requests generalizing m with
  | nil => exact hm
  | cons request requests ih => exact ih (hm.returned request)

/-- A machine that answers every call by an error, and does nothing else. -/
def AtStandstill (s : MachineSetup σ) (m : Machine σ) : Prop :=
  ∀ request, ∃ e, s.perform request m = .answer m (.error e)

/-- A machine at a standstill stays there over any further life. -/
theorem AtStandstill.life {m : Machine σ} (h : s.AtStandstill m) {requests : List Request}
    {call : LifeCall σ} (hcall : call ∈ s.life m requests) :
    ∃ e, call.run s = .answer m (.error e) := by
  induction requests with
  | nil => exact absurd hcall List.not_mem_nil
  | cons request requests ih =>
    obtain ⟨e, he⟩ := h request
    have hmachine : (s.perform request m).machine = m := congrArg Run.machine he
    rw [MachineSetup.life, hmachine] at hcall
    rcases List.mem_cons.1 hcall with rfl | hcall
    · exact ⟨e, he⟩
    · exact ih hcall

/-- Without transitions of the base state a terminal state brings a machine to a standstill. -/
theorem atStandstill_of_terminal (hc : s.chart.WellFormed)
    (hbase : ∀ base, s.chart.baseState? = some base → base.transitions = []) {m : Machine σ}
    (hm : m.Idle s.chart) {state : State} (hstate : s.currentState? m = some state)
    (hnone : state.transitions = []) : s.AtStandstill m := by
  have hname : s.currentName? m = some state.id := by
    rw [currentName?_eq, hstate]
    rfl
  have hfound : s.chart.state? state.id = some state :=
    hc.state?_eq_some_iff.2 ⟨mem_states_of_currentState? hstate, rfl⟩
  intro request
  cases request with
  | start => exact ⟨_, perform_of_refuse? (refuse?_start_of_started hm.started)⟩
  | push event =>
    exact ⟨_, push_of_unresolved hm hname (Chart.resolve_eq_none hfound hnone hbase event)⟩

/-- **Terminal states are static, and final without a base state.**  At every moment of a machine's
life, for arbitrary hooks, the machine is in a terminal state exactly if it has been started and its
current state is declared without transitions.  If the chart has no base state, or one without
transitions, then from there on every call from outside fails, calls no hook, tells the observer
nothing, and leaves the machine as it is. -/
theorem terminal_static_and_final (hd : s.chart.IsDocument) :
    (∀ c, s.Reached c →
      ((s.view c.machine).terminal = true ↔
        c.machine.lifecycle = .started ∧
          ∃ state, s.currentState? c.machine = some state ∧ state.transitions = [])) ∧
    ((∀ base, s.chart.baseState? = some base → base.transitions = []) →
      ∀ memory earlier later, (s.view (s.afterCalls { memory } earlier)).terminal = true →
        ∀ call ∈ s.life (s.afterCalls { memory } earlier) later,
          ∃ e, call.run s = .answer (s.afterCalls { memory } earlier) (.error e)) := by
  have hc := hd.wellFormed
  have hstarted : ∀ {m : Machine σ} {state : State}, m.Placed s.chart →
      s.currentState? m = some state → m.lifecycle = .started := by
    intro m state hplaced hstate
    obtain ⟨position, hposition, _⟩ := Option.bind_eq_some_iff.1 hstate
    exact hplaced.started_iff.2 ⟨position, hposition⟩
  refine ⟨?_, ?_⟩
  · intro c hreached
    rw [terminal_iff_currentState? hc]
    refine ⟨fun hterminal => ⟨?_, hterminal⟩, fun h => h.2⟩
    obtain ⟨state, hstate, _⟩ := hterminal
    exact hstarted (hreached.placed hc) hstate
  · intro hbase memory earlier later hterminal call hcall
    obtain ⟨state, hstate, hnone⟩ := (terminal_iff_currentState? hc _).1 hterminal
    have hconsistent := (moment_afterCalls (Moment.created memory) earlier).consistent hc
    have hidle : Machine.Idle s.chart (s.afterCalls { memory } earlier) :=
      ⟨hconsistent.settled fun _ => List.not_mem_nil, hconsistent.toPlaced,
        hstarted hconsistent.toPlaced hstate⟩
    exact (atStandstill_of_terminal hc hbase hidle hstate hnone).life hcall

/-- A rocket that is gone stays gone: igniting it again, lifting it off and starting it all fail. -/
theorem terminal_static_and_final_countdown :
    (countdown.view
      (countdown.afterCalls { memory := [0] } [.start, .push "Rise"])).terminal = true ∧
    ∀ call ∈ countdown.life (countdown.afterCalls { memory := [0] } [.start, .push "Rise"])
        [.push "Ignite", .push "Rise", .start],
      ∃ e, call.run countdown =
        .answer (countdown.afterCalls { memory := [0] } [.start, .push "Rise"]) (.error e) := by
  have hterminal : (countdown.view
      (countdown.afterCalls { memory := [0] } [.start, .push "Rise"])).terminal = true := rfl
  have hbase : ∀ base, countdown.chart.baseState? = some base → base.transitions = [] := by
    intro base hsome
    cases hsome
  exact ⟨hterminal, (terminal_static_and_final Chart.isDocument_rocket (s := countdown)).2 hbase _ _
    _ hterminal⟩

end MachineSetup

end Statechart
