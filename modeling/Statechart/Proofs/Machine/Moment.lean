import Statechart.Proofs.Machine.Transition
set_option autoImplicit false

/-!
# Machines: the moments of a run

`Moment s stack m` says that the machine looks like `m` at a moment when its user or one of its
hooks has control, `stack` being the calls that are being carried out then, the innermost first.
Whoever has control may call the machine, and a hook may change its memory as it likes.

`Moment.consistent` is the invariant of all moments: which calls can be in progress at all, when a
refused event can be waiting, and where the machine is.
-/

namespace Statechart

variable {σ : Type}

namespace MachineSetup

/-- The moments at which the user of a machine or one of its hooks has control. -/
inductive Moment (s : MachineSetup σ) : List Request → Machine σ → Prop where
  /-- the machine has been made -/
  | created (memory : σ) : Moment s [] { memory }
  /-- a call has come back to whoever has control -/
  | returned {stack : List Request} {m : Machine σ} (h : Moment s stack m) (request : Request) :
    Moment s stack (s.perform request m).machine
  /-- a start is being carried out, and its hook is called -/
  | starting {stack : List Request} {m : Machine σ} (h : Moment s stack m)
    (haccept : refuse? .start m = none) :
    Moment s (.start :: stack)
      { m with lifecycle := .started, current? := s.chart.position? s.chart.initial }
  /-- a push is being carried out, and one of its hooks is called -/
  | pushing {stack : List Request} {m : Machine σ} {event : String} {step : HookStep σ}
    (h : Moment s stack m) (haccept : refuse? (.push event) m = none)
    (hstep : step ∈ s.pushSteps event m) : Moment s (.push event :: stack) step.found
  /-- a hook has changed its memory -/
  | remembered {request : Request} {stack : List Request} {m : Machine σ}
    (h : Moment s (request :: stack) m) (memory : σ) : Moment s (request :: stack) { m with memory }

end MachineSetup

namespace Machine

/-- No push is in progress, and no refused event is waiting. -/
structure Settled (m : Machine σ) : Prop where
  pushing : m.pushing = false
  rejected : m.rejected? = none

/-- The machine has a current state exactly when it has been started, and that is one of the chart's
states. -/
structure Placed (c : Chart) (m : Machine σ) : Prop where
  started_iff : m.lifecycle = .started ↔ ∃ i, m.current? = some i
  lt_length : ∀ i, m.current? = some i → i < c.states.length

/-- The machine has been started and no push is in progress. -/
structure Idle (c : Chart) (m : Machine σ) : Prop extends m.Settled, m.Placed c where
  started : m.lifecycle = .started

/-- What holds at a moment when the calls of `stack` are being carried out. -/
structure Consistent (c : Chart) (stack : List Request) (m : Machine σ) : Prop extends
    m.Placed c where
  pushing_iff : m.pushing = true ↔ ∃ event, .push event ∈ stack
  rejected : m.pushing = false → m.rejected? = none
  started : stack ≠ [] → m.lifecycle = .started

theorem Placed.of_position {c : Chart} {id : String} {m : Machine σ} (hid : id ∈ c.stateIds)
    (hstarted : m.lifecycle = .started) (hcurrent : m.current? = c.position? id) : m.Placed c := by
  obtain ⟨i, hi⟩ := Chart.exists_position? hid
  have hsome : m.current? = some i := hcurrent.trans hi
  refine ⟨⟨fun _ => ⟨i, hsome⟩, fun _ => hstarted⟩, ?_⟩
  intro j hj
  exact Chart.position?_lt (hcurrent.symm.trans hj)

theorem Placed.of_eq {c : Chart} {m m' : Machine σ} (h : m.Placed c)
    (hlifecycle : m'.lifecycle = m.lifecycle) (hcurrent : m'.current? = m.current?) :
    m'.Placed c := by
  refine ⟨?_, ?_⟩
  · rw [hlifecycle, hcurrent]
    exact h.started_iff
  · rw [hcurrent]
    exact h.lt_length

/-- A machine with a current state has a name for it. -/
theorem Placed.exists_name {s : MachineSetup σ} {m : Machine σ} (h : m.Placed s.chart)
    (hstarted : m.lifecycle = .started) : ∃ state, s.currentName? m = some state := by
  obtain ⟨i, hi⟩ := h.started_iff.1 hstarted
  have hlt : i < s.chart.states.length := h.lt_length i hi
  refine ⟨s.chart.states[i].id, ?_⟩
  simp [MachineSetup.currentName?, hi, List.getElem?_eq_getElem hlt]

/-- Outside of pushes a consistent machine is settled. -/
theorem Consistent.settled {c : Chart} {stack : List Request} {m : Machine σ}
    (h : m.Consistent c stack) (hidle : ∀ event, .push event ∉ stack) : m.Settled := by
  have hpushing : m.pushing = false := by
    cases hp : m.pushing with
    | false => rfl
    | true =>
      obtain ⟨event, hevent⟩ := h.pushing_iff.1 hp
      exact absurd hevent (hidle event)
  exact ⟨hpushing, h.rejected hpushing⟩

/-- A consistent machine that does not refuse a push is idle. -/
theorem Consistent.idle {c : Chart} {stack : List Request} {m : Machine σ} {event : String}
    (h : m.Consistent c stack) (haccept : MachineSetup.refuse? (.push event) m = none) :
    m.Idle c := by
  obtain ⟨hstarted, hpushing⟩ := MachineSetup.refuse?_push_eq_none_iff.1 haccept
  exact ⟨⟨hpushing, h.rejected hpushing⟩, h.toPlaced, hstarted⟩

theorem Idle.accepts {c : Chart} {m : Machine σ} (h : m.Idle c) (event : String) :
    MachineSetup.refuse? (.push event) m = none :=
  MachineSetup.refuse?_push_eq_none_iff.2 ⟨h.started, h.pushing⟩

/-- The hooks of a push find what an idle machine is once the push is marked. -/
theorem Idle.ready {c : Chart} {m : Machine σ} (h : m.Idle c) :
    Machine.Ready { m with pushing := true } :=
  ⟨⟨h.started, rfl⟩, h.rejected⟩

/-- Nothing can be in progress before the start. -/
theorem Consistent.stack_eq_nil {c : Chart} {stack : List Request} {m : Machine σ}
    (h : m.Consistent c stack) (hnot : m.lifecycle = .notStarted) : stack = [] := by
  cases stack with
  | nil => rfl
  | cons call rest =>
    have hstarted := h.started (List.cons_ne_nil _ _)
    rw [hnot] at hstarted
    cases hstarted

end Machine

namespace MachineSetup

variable {s : MachineSetup σ}

/-! ## What a push leaves -/

/-- A push that is carried out leaves an idle machine, and its hooks find the machine in a state of
the chart. -/
theorem idle_push (hc : s.chart.WellFormed) {m : Machine σ} (hm : m.Idle s.chart)
    (event : String) :
    (s.perform (.push event) m).machine.Idle s.chart ∧
      ∀ h ∈ s.pushSteps event m, h.found.Ready ∧ h.found.Placed s.chart := by
  have haccept := hm.accepts event
  cases hfound : (s.currentName? m).bind (s.chart.resolve · event) with
  | none =>
    have heq := perform_push_of_unresolved haccept hm.rejected hfound
    have hsteps : s.pushSteps event m = [] := by
      unfold pushSteps
      rw [heq]
      rfl
    rw [heq, hsteps]
    refine ⟨hm, ?_⟩
    intro h hh
    exact nomatch hh
  | some t =>
    obtain ⟨state, hstate, ht⟩ := Option.bind_eq_some_iff.1 hfound
    have htarget : t.target ∈ s.chart.stateIds :=
      hc.target_mem t (Chart.mem_transitions_of_resolve ht)
    obtain ⟨row, hrow, _, _, hmachine⟩ := performed_push haccept hm.rejected hstate ht
    obtain ⟨hsteps, hend, hcurrent⟩ := current_of_prefix_plan hm.ready hrow.isPrefix
    rw [← hrow.machine_eq] at hend hcurrent
    refine ⟨?_, ?_⟩
    · rw [hmachine]
      refine ⟨⟨rfl, rfl⟩, ?_, hend.started⟩
      split at hcurrent
      · exact Machine.Placed.of_position htarget hend.started hcurrent
      · exact hm.toPlaced.of_eq (hend.started.trans hm.started.symm) hcurrent
    · intro h hh
      obtain ⟨hfoundReady, hfoundAt⟩ := hsteps h hh
      refine ⟨hfoundReady, ?_⟩
      split at hfoundAt
      · exact hm.toPlaced.of_eq (hfoundReady.started.trans hm.started.symm) hfoundAt
      · exact Machine.Placed.of_position htarget hfoundReady.started hfoundAt

/-! ## What a start leaves -/

/-- An idle machine stays idle over every call. -/
theorem kept_idle (hc : s.chart.WellFormed) : Kept s.perform (Machine.Idle s.chart) where
  remember _ _ h := ⟨⟨h.pushing, h.rejected⟩, ⟨h.started_iff, h.lt_length⟩, h.started⟩
  call request m h := by
    cases request with
    | start =>
      rw [perform_of_refuse? (refuse?_start_of_started h.started)]
      exact h
    | push event => exact (idle_push hc h event).1

/-- A start that is carried out calls the hook of the initial state and nothing else. -/
theorem perform_start_of_accept {m : Machine σ} (haccept : refuse? .start m = none) :
    s.perform .start m =
      s.callHook s.perform (.stateChange s.chart.initial)
        { m with lifecycle := .started, current? := s.chart.position? s.chart.initial } :=
  perform_of_accept haccept

/-- The hook of a start finds an idle machine. -/
theorem idle_starting (hc : s.chart.WellFormed) {m : Machine σ} (hm : m.Settled) :
    Machine.Idle s.chart
      { m with lifecycle := .started, current? := s.chart.position? s.chart.initial } :=
  ⟨⟨hm.pushing, hm.rejected⟩, Machine.Placed.of_position hc.initial_mem rfl rfl, rfl⟩

theorem idle_start (hc : s.chart.WellFormed) {m : Machine σ} (haccept : refuse? .start m = none)
    (hm : m.Settled) : (s.perform .start m).machine.Idle s.chart := by
  rw [perform_start_of_accept haccept]
  exact (kept_idle hc).callHook (idle_starting hc hm) _

/-! ## The invariant -/

/-- A call keeps a machine consistent with the calls that are being carried out around it. -/
theorem consistent_perform (hc : s.chart.WellFormed) {stack : List Request} {m : Machine σ}
    (h : m.Consistent s.chart stack) (request : Request) :
    (s.perform request m).machine.Consistent s.chart stack := by
  cases hrefuse : refuse? request m with
  | some run =>
    rw [perform_of_refuse? hrefuse]
    cases hpushing : m.pushing with
    | false =>
      rw [machine_of_refuse? hrefuse hpushing]
      exact h
    | true =>
      -- a push is in progress, so the machine has been started and is busy
      obtain ⟨event, hevent⟩ := h.pushing_iff.1 hpushing
      have hstarted := h.started (List.ne_nil_of_mem hevent)
      rw [refuse?_of_busy ⟨hstarted, hpushing⟩] at hrefuse
      obtain rfl := Option.some.inj hrefuse
      cases request with
      | start => exact h
      | push event =>
        refine ⟨⟨h.started_iff, h.lt_length⟩, h.pushing_iff, ?_, h.started⟩
        intro hnot
        exact absurd (hnot.symm.trans hpushing) (by simp)
  | none =>
    cases request with
    | start =>
      obtain rfl := h.stack_eq_nil (refuse?_start_eq_none_iff.1 hrefuse)
      have hidle := idle_start hc hrefuse (h.settled fun _ => List.not_mem_nil)
      refine ⟨hidle.toPlaced, ?_, fun _ => hidle.rejected, fun _ => hidle.started⟩
      simp [hidle.pushing]
    | push event =>
      have hidle := (idle_push hc (h.idle hrefuse) event).1
      refine ⟨hidle.toPlaced, ?_, fun _ => hidle.rejected, fun _ => hidle.started⟩
      rw [hidle.pushing, ← (h.idle hrefuse).pushing]
      exact h.pushing_iff

/-- **The invariant of all moments.** -/
theorem Moment.consistent (hc : s.chart.WellFormed) {stack : List Request} {m : Machine σ}
    (h : s.Moment stack m) : m.Consistent s.chart stack := by
  induction h with
  | created memory =>
    refine ⟨⟨?_, ?_⟩, ?_, fun _ => rfl, fun h => absurd rfl h⟩
    · simp
    · intro i hi
      cases hi
    · simp
  | returned _ request ih => exact consistent_perform hc ih request
  | @starting stack m _ haccept ih =>
    obtain rfl := ih.stack_eq_nil (refuse?_start_eq_none_iff.1 haccept)
    have hidle := idle_starting hc (ih.settled fun _ => List.not_mem_nil)
    have hpushing : m.pushing = false := hidle.pushing
    refine ⟨hidle.toPlaced, ?_, fun _ => hidle.rejected, fun _ => hidle.started⟩
    simp [hpushing]
  | @pushing stack m event step _ haccept hstep ih =>
    obtain ⟨hready, hplaced⟩ := (idle_push hc (ih.idle haccept) event).2 step hstep
    refine ⟨hplaced, ?_, fun _ => hready.rejected, fun _ => hready.started⟩
    exact ⟨fun _ => ⟨event, List.mem_cons_self⟩, fun _ => hready.pushing⟩
  | remembered _ memory ih =>
    exact ⟨⟨ih.started_iff, ih.lt_length⟩, ih.pushing_iff, ih.rejected, ih.started⟩

end MachineSetup

end Statechart
