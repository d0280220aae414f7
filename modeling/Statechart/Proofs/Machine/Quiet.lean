import Statechart.Machine.Recorder
import Statechart.Proofs.Machine.Execution
set_option autoImplicit false

/-!
# Machines with quiet hooks

Hooks that always succeed and never call the machine leave nothing but the automaton of the chart:
an event leads to the target of the transition that it resolves to, and an event that resolves to
none leads nowhere else (`Chart.follow`).  `currentName?_afterCalls` says so for any row of events.
-/

namespace Statechart

variable {σ : Type}

/-- Hooks that always succeed and never call the machine. -/
def Hooks.Quiet (hooks : Hooks σ) : Prop :=
  ∀ memory view call, ∃ after, hooks.respond memory view call = .finish after (.ok ())

theorem Hooks.quiet_recorder : Hooks.recorder.Quiet :=
  fun memory _ call => ⟨memory ++ [call], rfl⟩

namespace Chart

/-- The state that an event leads to. -/
def follow (c : Chart) (state event : String) : String :=
  ((c.resolve state event).map (·.target)).getD state

/-- The state that events lead to, one after the other. -/
def followAll (c : Chart) (state : String) (events : List String) : String :=
  events.foldl c.follow state

theorem follow_of_resolve {c : Chart} {state event : String} {t : Transition}
    (h : c.resolve state event = some t) : c.follow state event = t.target := by
  rw [follow, h]
  rfl

theorem follow_of_unresolved {c : Chart} {state event : String}
    (h : c.resolve state event = none) : c.follow state event = state := by
  rw [follow, h]
  rfl

theorem followAll_concat (c : Chart) (state event : String) (events : List String) :
    c.followAll state (events ++ [event]) = c.follow (c.followAll state events) event := by
  rw [followAll, List.foldl_append]
  rfl

end Chart

namespace MachineSetup

variable {s : MachineSetup σ} {m : Machine σ}

/-- A quiet hook is called, remembers something, and that is all. -/
theorem callHook_of_quiet (hq : s.hooks.Quiet) (call : HookCall) (m : Machine σ) :
    ∃ memory, s.callHook s.perform call m =
      ⟨{ m with memory }, [.hook call (s.view m)], .ok ()⟩ := by
  obtain ⟨memory, hrespond⟩ := hq m.memory (s.view m) call
  refine ⟨memory, ?_⟩
  unfold callHook
  rw [hrespond]
  rfl

theorem smooth_of_quiet (hq : s.hooks.Quiet) (h : HookStep σ) : h.Smooth s := by
  obtain ⟨memory, hrun⟩ := callHook_of_quiet hq h.call h.found
  unfold HookStep.Smooth HookStep.returned HookStep.pushes HookStep.run
  rw [hrun]
  exact ⟨rfl, rfl⟩

/-! ## One call -/

/-- Starting a machine with quiet hooks succeeds and leaves it idle in the initial state. -/
theorem start_of_quiet (hc : s.chart.WellFormed) (hq : s.hooks.Quiet) (memory : σ) :
    (s.perform .start { memory }).outcome = .ok () ∧
    (s.perform .start { memory }).machine.Idle s.chart ∧
    s.currentName? (s.perform .start { memory }).machine = some s.chart.initial := by
  have haccept : refuse? .start ({ memory } : Machine σ) = none := refuse?_start_eq_none_iff.2 rfl
  have hidle := idle_start hc haccept ⟨rfl, rfl⟩
  rw [perform_start_of_accept haccept] at hidle ⊢
  obtain ⟨after, hrun⟩ := callHook_of_quiet hq (.stateChange s.chart.initial)
    { lifecycle := .started, current? := s.chart.position? s.chart.initial, memory }
  rw [hrun] at hidle ⊢
  exact ⟨rfl, hidle, currentName?_of_position hc.initial_mem rfl⟩

/-- With quiet hooks an event that resolves to a transition makes all hook calls of it and moves the
machine to the target. -/
theorem push_of_quiet (hc : s.chart.WellFormed) (hq : s.hooks.Quiet) (hm : m.Idle s.chart)
    {state event : String} {t : Transition} (hstate : s.currentName? m = some state)
    (ht : s.chart.resolve state event = some t) :
    (s.perform (.push event) m).outcome = .ok () ∧
    (s.pushSteps event m).map (·.call) = t.plan ∧
    s.currentName? (s.perform (.push event) m).machine = some t.target := by
  have hrun := executes_of_idle hc hm hstate ht
  have hcalls : (s.pushSteps event m).map (·.call) = t.plan := by
    refine Classical.not_not.1 fun hne => ?_
    obtain ⟨h, _, hrough⟩ := hrun.stopped hne
    exact hrough (smooth_of_quiet hq h)
  have hentered : .stateChange t.target ∈ (s.pushSteps event m).map (·.call) := by
    rw [hcalls, Transition.plan]
    exact List.mem_append_right _ (List.mem_singleton_self _)
  refine ⟨hrun.succeeds.2 ⟨hcalls, fun h _ => smooth_of_quiet hq h⟩, hcalls, ?_⟩
  rw [hrun.moved, if_pos hentered]

/-- An idle machine changes nothing at an event that resolves to no transition. -/
theorem push_of_unresolved (hm : m.Idle s.chart) {state event : String}
    (hstate : s.currentName? m = some state) (hnone : s.chart.resolve state event = none) :
    s.perform (.push event) m = .answer m (.error
      (if event ∈ s.chart.events then .unhandled event state else .unknownEvent event)) := by
  have hfound : (s.currentName? m).bind (s.chart.resolve · event) = none := by
    rw [hstate]
    exact hnone
  rw [perform_push_of_unresolved (hm.accepts event) hm.rejected hfound, complaint, hstate]
  by_cases hevent : event ∈ s.chart.events
  · rw [if_neg (not_not_intro hevent), if_pos hevent]
  · rw [if_pos hevent, if_neg hevent]

/-- With quiet hooks an event leads a machine where it leads in the chart. -/
theorem currentName?_push_of_quiet (hc : s.chart.WellFormed) (hq : s.hooks.Quiet)
    (hm : m.Idle s.chart) {state : String} (hstate : s.currentName? m = some state)
    (event : String) :
    s.currentName? (s.perform (.push event) m).machine = some (s.chart.follow state event) := by
  cases ht : s.chart.resolve state event with
  | some t => rw [(push_of_quiet hc hq hm hstate ht).2.2, Chart.follow_of_resolve ht]
  | none =>
    rw [push_of_unresolved hm hstate ht, Chart.follow_of_unresolved ht]
    exact hstate

/-! ## Rows of calls -/

/-- The machine after calls from outside, one after the other. -/
def afterCalls (s : MachineSetup σ) (m : Machine σ) (requests : List Request) : Machine σ :=
  requests.foldl (fun m request => (s.perform request m).machine) m

theorem currentName?_pushes (hc : s.chart.WellFormed) (hq : s.hooks.Quiet) (hm : m.Idle s.chart)
    {state : String} (hstate : s.currentName? m = some state) (events : List String) :
    s.currentName? (s.afterCalls m (events.map .push)) =
      some (s.chart.followAll state events) := by
  induction events generalizing m state with
  | nil => exact hstate
  | cons event events ih =>
    exact ih (idle_push hc hm event).1 (currentName?_push_of_quiet hc hq hm hstate event)

/-- **Quiet hooks leave the automaton.**  A machine that is started and handles events is where the
events lead in the chart from its initial state. -/
theorem currentName?_afterCalls (hc : s.chart.WellFormed) (hq : s.hooks.Quiet) (memory : σ)
    (events : List String) :
    s.currentName? (s.afterCalls { memory } (.start :: events.map .push)) =
      some (s.chart.followAll s.chart.initial events) := by
  obtain ⟨_, hidle, hinitial⟩ := start_of_quiet hc hq memory
  exact currentName?_pushes hc hq hidle hinitial events

end MachineSetup

end Statechart
