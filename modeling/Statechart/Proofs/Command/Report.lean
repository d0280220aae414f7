import Statechart.Command.Execute
import Statechart.Proofs.Chart.Depiction
import Statechart.Proofs.Machine.Quiet
import Statechart.Proofs.Markup.RoundTrip
set_option autoImplicit false

/-!
# Commands: the report of a run

What the run of a chart writes is the run of the chart's automaton.  `Chart.Path` is a row of
transitions that events lead along, and `Chart.LongestRun` is the longest one that a list of events
leads along from the initial state.  `Reports` says what is written of it: a line for the start, a
line for each transition, and either a line for the end or the error of the event that leads
nowhere.
-/

namespace Statechart

/-! ## The run of the automaton -/

namespace Chart

/-- Declared events lead along transitions, one each, from one state to another. -/
inductive Path (c : Chart) : String → List String → List Transition → String → Prop where
  | done (state : String) : Path c state [] [] state
  | step {state event last : String} {t : Transition} {events : List String}
    {path : List Transition} (hevent : event ∈ c.events) (ht : c.resolve state event = some t)
    (hrest : Path c t.target events path last) : Path c state (event :: events) (t :: path) last

/-- The longest run that events lead along from the initial state: the events that are taken, those
that are left, the transitions, and the state where the run ends. -/
structure LongestRun (c : Chart) (events : List String) where
  taken : List String
  rest : List String
  path : List Transition
  last : String
  split : taken ++ rest = events
  follows : c.Path c.initial taken path last
  /-- the next event, if there is one, leads nowhere -/
  stops : ∀ event, rest.head? = some event → ¬(event ∈ c.events ∧ (c.resolve last event).isSome)

variable {c : Chart}

theorem Path.length_eq {state last : String} {events : List String} {path : List Transition}
    (h : c.Path state events path last) : path.length = events.length := by
  induction h with
  | done => rfl
  | step _ _ _ ih => exact congrArg (· + 1) ih

/-- From every state events lead along a path as far as they can. -/
theorem exists_path (c : Chart) (state : String) (events : List String) :
    ∃ taken rest path last, taken ++ rest = events ∧ c.Path state taken path last ∧
      ∀ event, rest.head? = some event →
        ¬(event ∈ c.events ∧ (c.resolve last event).isSome) := by
  induction events generalizing state with
  | nil => exact ⟨[], [], [], state, rfl, .done state, fun _ h => nomatch h⟩
  | cons event events ih =>
    by_cases htaken : event ∈ c.events ∧ (c.resolve state event).isSome
    · obtain ⟨hevent, hsome⟩ := htaken
      obtain ⟨t, ht⟩ := Option.isSome_iff_exists.1 hsome
      obtain ⟨taken, rest, path, last, hsplit, hpath, hstops⟩ := ih t.target
      exact ⟨event :: taken, rest, t :: path, last, congrArg (event :: ·) hsplit,
        .step hevent ht hpath, hstops⟩
    · refine ⟨[], event :: events, [], state, rfl, .done state, ?_⟩
      intro next hnext
      exact Option.some.inj hnext ▸ htaken

theorem nonempty_longestRun (c : Chart) (events : List String) :
    Nonempty (c.LongestRun events) := by
  obtain ⟨taken, rest, path, last, hsplit, hpath, hstops⟩ := exists_path c c.initial events
  exact ⟨⟨taken, rest, path, last, hsplit, hpath, hstops⟩⟩

end Chart

/-! ## Lines -/

theorem calledActions_plan (t : Transition) : calledActions t.plan = t.actions := by
  unfold calledActions Transition.plan
  rw [List.filterMap_append, List.filterMap_map]
  simp

theorem calledState_plan (t : Transition) : calledState t.plan = t.target := by
  unfold calledState Transition.plan
  rw [List.foldl_append]
  rfl

namespace MachineSetup

variable {c : Chart} {m : Machine (List HookCall)}

/-- Recording hooks remember the calls of a row, in order, after what they remember already. -/
theorem memory_reached (m : Machine (List HookCall)) (calls : List HookCall) :
    ((recording c).reached m ((recording c).replay m calls)).memory = m.memory ++ calls := by
  have hleft : ∀ h : HookStep (List HookCall),
      (h.left (recording c)).memory = h.found.memory ++ [h.call] := by
    intro h
    unfold HookStep.left Run.settle
    split <;> rfl
  have harrive : ∀ m call, ((recording c).arrive m call).memory = m.memory := by
    intro m call
    cases call <;> rfl
  induction calls generalizing m with
  | nil => exact (List.append_nil _).symm
  | cons call calls ih =>
    rw [replay_cons, reached_cons, ih, hleft, harrive, List.append_assoc]
    rfl

/-- The hook calls that are recorded of a push are those of its transition. -/
theorem callsBetween_push (hc : c.WellFormed) (hm : m.Idle c) {state event : String}
    {t : Transition} (hstate : (recording c).currentName? m = some state)
    (ht : c.resolve state event = some t) :
    callsBetween m ((recording c).perform (.push event) m).machine = t.plan := by
  have hrun := executes_of_idle (s := recording c) hc hm hstate ht
  obtain ⟨_, hcalls, _⟩ := push_of_quiet (s := recording c) hc Hooks.quiet_recorder hm hstate ht
  have hmemory : ((recording c).perform (.push event) m).machine.memory = m.memory ++ t.plan := by
    rw [hrun.machine, ← hcalls, hrun.calls.symm]
    exact memory_reached _ _
  rw [callsBetween, hmemory, List.drop_left]

/-! ## Events -/

/-- The lines of the transitions of a path. -/
def pathLines (events : List String) (path : List Transition) : List String :=
  List.zipWith (fun event t => stepLine event t.actions t.target) events path

/-- A transition that is taken gives its line. -/
theorem traceEvents_of_resolve (hc : c.WellFormed) (hm : m.Idle c) {state event : String}
    {t : Transition} (hstate : (recording c).currentName? m = some state)
    (ht : c.resolve state event = some t) (events : List String) :
    (recording c).traceEvents m (event :: events) =
      (stepLine event t.actions t.target ::
          ((recording c).traceEvents ((recording c).perform (.push event) m).machine events).1,
        ((recording c).traceEvents ((recording c).perform (.push event) m).machine events).2) := by
  have hok := (push_of_quiet (s := recording c) hc Hooks.quiet_recorder hm hstate ht).1
  rw [traceEvents]
  simp only [hok, callsBetween_push hc hm hstate ht, calledActions_plan, calledState_plan]

/-- Events that lead along a path give the lines of the path, and leave the machine where the path
ends. -/
theorem traceEvents_of_path (hc : c.WellFormed) {state last : String} {events : List String}
    {path : List Transition} (hpath : c.Path state events path last) (hm : m.Idle c)
    (hstate : (recording c).currentName? m = some state) (rest : List String) :
    ∃ m', m'.Idle c ∧ (recording c).currentName? m' = some last ∧
      (recording c).traceEvents m (events ++ rest) =
        (pathLines events path ++ ((recording c).traceEvents m' rest).1,
          ((recording c).traceEvents m' rest).2) := by
  induction hpath generalizing m with
  | done => exact ⟨m, hm, hstate, rfl⟩
  | @step state event last t events path _ ht _ ih =>
    have hmoved := (push_of_quiet (s := recording c) hc Hooks.quiet_recorder hm hstate ht).2.2
    obtain ⟨m', hm', hlast, htrace⟩ :=
      ih (idle_push (s := recording c) hc hm event).1 hmoved
    refine ⟨m', hm', hlast, ?_⟩
    rw [List.cons_append, traceEvents_of_resolve hc hm hstate ht, htrace]
    rfl

/-- An event that leads nowhere ends the report with its error. -/
theorem traceEvents_of_unresolved (hm : m.Idle c) {state event : String}
    (hstate : (recording c).currentName? m = some state)
    (hstops : ¬(event ∈ c.events ∧ (c.resolve state event).isSome)) (events : List String) :
    (recording c).traceEvents m (event :: events) =
      ([], some (if event ∈ c.events then .unhandled event state else .unknownEvent event)) := by
  have hnone : c.resolve state event = none := by
    cases ht : c.resolve state event with
    | none => rfl
    | some t => exact absurd ⟨mem_events_of_resolve ht, ht ▸ rfl⟩ hstops
  rw [traceEvents, push_of_unresolved (s := recording c) hm hstate hnone]
  rfl

theorem endLines_eq {last : String} (hstate : (recording c).currentName? m = some last) :
    (recording c).endLines m =
      if c.isTerminal last then [stepLine "(terminal)" [] last] else [] := by
  simp only [endLines, view, hstate, Option.any_some, Option.getD_some]
  rfl

end MachineSetup

/-! ## Reports -/

/-- The lines that are written of a run, and the error that ends it. -/
theorem Chart.trace_eq {c : Chart} (hc : c.WellFormed) {events : List String}
    (run : c.LongestRun events) :
    c.trace events =
      (stepLine "(start)" [] c.initial :: MachineSetup.pathLines run.taken run.path ++
          (if run.rest = [] ∧ c.isTerminal run.last = true then
            [stepLine "(terminal)" [] run.last] else []),
        run.rest.head?.map fun event =>
          if event ∈ c.events then .unhandled event run.last else .unknownEvent event) := by
  obtain ⟨hok, hidle, hinitial⟩ := MachineSetup.start_of_quiet (s := .recording c) hc
    Hooks.quiet_recorder []
  obtain ⟨m, hm, hlast, htrace⟩ :=
    MachineSetup.traceEvents_of_path hc run.follows hidle hinitial run.rest
  rw [run.split] at htrace
  unfold Chart.trace
  simp only [hok, htrace]
  cases hrest : run.rest with
  | nil => simp [MachineSetup.traceEvents, MachineSetup.endLines_eq hlast]
  | cons event rest =>
    have hstops := run.stops event (by rw [hrest]; rfl)
    simp [MachineSetup.traceEvents_of_unresolved hm hlast hstops]

theorem Chart.wellFormed_of_ofFile {content : Except FileFault String} {c : Chart}
    (h : Chart.ofFile content = .ok c) : c.WellFormed := by
  unfold Chart.ofFile Chart.ofText at h
  cases content with
  | error fault => cases h
  | ok text =>
    cases hroot : Markup.Element.ofText text with
    | error fault => simp [hroot] at h
    | ok root =>
      cases hchart : Chart.ofElement root with
      | error violation => simp [hroot, hchart] at h
      | ok chart =>
        simp only [hroot, hchart, Except.ok.injEq] at h
        exact h ▸ Chart.wellFormed_of_ofElement hchart

end Statechart
