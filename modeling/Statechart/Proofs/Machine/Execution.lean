import Statechart.Machine.Rule
import Statechart.Proofs.Machine.Moment
set_option autoImplicit false

/-!
# Machines: how a push runs

For arbitrary hooks, at every moment at which a push is not refused.  `Executes` says which hooks a
push calls and what they see, where it stops, how it ends and where it leaves the machine.
A push made by one of these hooks fails the push it interrupts, whatever the hook makes of it.
-/

namespace Statechart

variable {σ : Type}

namespace MachineSetup

variable {s : MachineSetup σ}

/-! ## Hooks and the current state -/

/-- The state that a hook call of a transition finds. -/
def foundState (state : String) : HookCall → String
  | .action _ => state
  | .stateChange target => target

/-- How the push of `event` runs that finds the transition `t` in `state`; `steps` are the hook
calls it makes. -/
structure Executes (s : MachineSetup σ) (event state : String) (t : Transition) (m : Machine σ)
    (run : Run σ) (steps : List (HookStep σ)) : Prop where
  /-- the hook calls that are recorded are those of `steps` -/
  calls : hookCalls run.trace = steps.map (·.call)
  /-- at least one hook is called -/
  ne_nil : steps ≠ []
  /-- the hooks are called in the order of the transition: its actions, then the target -/
  isPrefix : steps.map (·.call) <+: t.plan
  /-- no hook is called after one that fails or pushes -/
  smooth : ∀ h ∈ steps.dropLast, h.Smooth s
  /-- nothing else keeps a hook from being called -/
  stopped : steps.map (·.call) ≠ t.plan → ∃ h, steps.getLast? = some h ∧ ¬ h.Smooth s
  /-- actions find the machine in the state that is left, the last hook in the target -/
  found : ∀ h ∈ steps, (s.view h.found).state? = some (foundState state h.call)
  /-- the push succeeds exactly if all hooks were called, succeeded and pushed nothing -/
  succeeds : run.outcome = .ok () ↔ steps.map (·.call) = t.plan ∧ ∀ h ∈ steps, h.Smooth s
  /-- the machine has moved exactly if the hook of the target was called -/
  moved : s.currentName? run.machine =
    some (if .stateChange t.target ∈ steps.map (·.call) then t.target else state)
  /-- the machine is the one that the hook calls leave, with the push at its end -/
  machine : run.machine =
    { s.reached { m with pushing := true } steps with pushing := false, rejected? := none }
  /-- a hook call is recorded with what the hook sees; every call of the hook is refused -/
  recorded : ∀ h ∈ steps, ∃ requests : List Request,
    (h.run s).trace = .hook h.call (s.view h.found) :: requests.map Request.refused
  /-- an observer of a chart to be debugged is told of the event first, then of each hook call
  immediately before it -/
  observed : s.chart.debug = true → s.observer = true →
    run.trace = .debug (.event event) ::
      steps.flatMap fun h => .debug h.call.notification :: (h.run s).trace
  /-- otherwise it is told nothing -/
  unobserved : ¬ (s.chart.debug = true ∧ s.observer = true) →
    run.trace = steps.flatMap fun h => (h.run s).trace

theorem notify_of_observed (hdebug : s.chart.debug = true) (hobserver : s.observer = true)
    (notification : Notification) : s.notify notification = [.debug notification] := by
  simp [notify, hdebug, hobserver]

theorem notify_of_unobserved (h : ¬ (s.chart.debug = true ∧ s.observer = true))
    (notification : Notification) : s.notify notification = [] := by
  have hnot : ¬ (s.chart.debug && s.observer) = true := by simpa using h
  simp [notify, hnot]

/-- A machine placed where an id was found has that id as its current state. -/
theorem currentName?_of_position {m : Machine σ} {id : String} (hid : id ∈ s.chart.stateIds)
    (hcurrent : m.current? = s.chart.position? id) : s.currentName? m = some id := by
  obtain ⟨i, hi⟩ := Chart.exists_position? hid
  unfold currentName?
  rw [hcurrent, hi]
  exact Chart.getElem?_of_position? hi

/-- Machines at the same position have the same current state. -/
theorem currentName?_congr {m m' : Machine σ} (h : m'.current? = m.current?) :
    s.currentName? m' = s.currentName? m := by
  unfold currentName?
  rw [h]

/-! ## Execution -/

section Push

variable {m : Machine σ} {state event : String} {t : Transition}

/-- The hooks of a transition's actions find the state that is left, that of the target finds the
target. -/
theorem foundState_of_mem_pushSteps (hc : s.chart.WellFormed) (hm : m.Idle s.chart)
    (hstate : s.currentName? m = some state) (ht : s.chart.resolve state event = some t) :
    ∀ h ∈ s.pushSteps event m, (s.view h.found).state? = some (foundState state h.call) := by
  intro h hh
  obtain ⟨row, hrow, _⟩ := performed_push (hm.accepts event) hm.rejected hstate ht
  have hat := ((current_of_prefix_plan (s := s) hm.ready hrow.isPrefix).1 h hh).2
  have hplanned : h.call ∈ t.plan := by
    have hmem : h.call ∈ (s.pushSteps event m).map (·.call) := List.mem_map_of_mem hh
    rw [pushSteps, map_call_replay] at hmem
    exact hrow.isPrefix.subset hmem
  cases hcall : h.call with
  | action name =>
    rw [hcall] at hat
    exact (currentName?_congr hat).trans hstate
  | stateChange target =>
    rw [hcall] at hat hplanned
    have htarget : target = t.target := by simpa [Transition.plan] using hplanned
    rw [htarget]
    exact currentName?_of_position (hc.target_mem t (Chart.mem_transitions_of_resolve ht)) hat

/-- After a push the machine is in the target if the hook of the target was called, and else where
it was. -/
theorem currentName?_after_push (hc : s.chart.WellFormed) (hm : m.Idle s.chart)
    (hstate : s.currentName? m = some state) (ht : s.chart.resolve state event = some t) :
    s.currentName? (s.perform (.push event) m).machine =
      some (if .stateChange t.target ∈ hookCalls (s.perform (.push event) m).trace then t.target
        else state) := by
  obtain ⟨row, hrow, _, _, hmachine⟩ := performed_push (hm.accepts event) hm.rejected hstate ht
  have hcurrent := (current_of_prefix_plan (s := s) hm.ready hrow.isPrefix).2.2
  rw [← hrow.machine_eq] at hcurrent
  rw [hmachine]
  split
  · rename_i hin
    rw [if_pos hin] at hcurrent
    exact currentName?_of_position (hc.target_mem t (Chart.mem_transitions_of_resolve ht)) hcurrent
  · rename_i hout
    rw [if_neg hout] at hcurrent
    exact (currentName?_congr hcurrent).trans hstate

/-- An idle machine runs the push of an event that resolves to a transition. -/
theorem executes_of_idle (hc : s.chart.WellFormed) (hm : m.Idle s.chart)
    (hstate : s.currentName? m = some state) (ht : s.chart.resolve state event = some t) :
    s.Executes event state t m (s.perform (.push event) m) (s.pushSteps event m) := by
  obtain ⟨row, hrow, htrace, houtcome, hmachine⟩ :=
    performed_push (hm.accepts event) hm.rejected hstate ht
  have hcalls : (s.pushSteps event m).map (·.call) =
      hookCalls (s.perform (.push event) m).trace := map_call_replay _ _
  rw [hrow.trace_eq] at htrace
  refine {
    calls := hcalls.symm
    ne_nil := ?_
    isPrefix := hcalls ▸ hrow.isPrefix
    smooth := hrow.smooth
    stopped := fun hne => hrow.exists_rough (hcalls ▸ hne)
    found := foundState_of_mem_pushSteps hc hm hstate ht
    succeeds := ?_
    moved := hcalls ▸ currentName?_after_push hc hm hstate ht
    machine := ?_
    recorded := fun h hh => HookStep.trace_run (ready_replay hm.ready _ h hh)
    observed := ?_
    unobserved := ?_ }
  · -- every transition has at least the hook call of its target
    intro hnil
    refine hrow.ne_nil (by simp [Transition.plan]) ?_
    rw [← hcalls, hnil]
    rfl
  · rw [houtcome, hcalls]
    exact hrow.outcome_eq_ok_iff hm.ready
  · rw [hmachine, hrow.machine_eq]
    rfl
  · intro hdebug hobserver
    rw [htrace, notify_of_observed hdebug hobserver]
    simp only [HookStep.record, notify_of_observed hdebug hobserver, List.singleton_append]
    rfl
  · intro hquiet
    rw [htrace, notify_of_unobserved hquiet]
    simp only [HookStep.record, notify_of_unobserved hquiet, List.nil_append]
    rfl

end Push

/-- At a moment at which no push is in progress, a machine that has a current state is idle. -/
theorem Moment.idle (hd : s.chart.IsDocument) {stack : List Request} {m : Machine σ}
    (hm : s.Moment stack m) (hidle : ∀ e, .push e ∉ stack) {state : String}
    (hstate : s.currentName? m = some state) : m.Idle s.chart := by
  have hcons := hm.consistent hd.wellFormed
  have hstarted : m.lifecycle = .started := by
    refine hcons.started_iff.2 ?_
    cases hcurrent : m.current? with
    | none => simp [currentName?, hcurrent] at hstate
    | some i => exact ⟨i, rfl⟩
  exact ⟨hcons.settled hidle, hcons.toPlaced, hstarted⟩

/-- **Execution of a push**, for arbitrary hooks: at every moment at which no push is in progress,
an event that resolves to a transition runs it. -/
theorem push_executes (hd : s.chart.IsDocument) {stack : List Request} {m : Machine σ}
    (hm : s.Moment stack m) (hidle : ∀ e, .push e ∉ stack) {state event : String} {t : Transition}
    (hstate : s.currentName? m = some state) (ht : s.chart.resolve state event = some t) :
    s.Executes event state t m (s.perform (.push event) m) (s.pushSteps event m) := by
  exact executes_of_idle hd.wellFormed (hm.idle hd hidle hstate) hstate ht

/-- Hooks of a door: the first unlocking tries to kick the door and makes nothing of the refusal. -/
def kickingHooks : List HookRule :=
  [⟨.action, some "Unlock", 0, some 1, [.call (.push "Kick") true]⟩]

/-- A door with such hooks and an observer. -/
def kickedDoor : MachineSetup (List Nat) where
  chart := .door
  hooks := .ofRules kickingHooks
  observer := true

/-- Opening the kicked door runs up to the hook that kicks. -/
theorem push_executes_kickedDoor :
    kickedDoor.Executes "Open" "Closed" ⟨"Open", "Opened", ["Unlock"]⟩
      (kickedDoor.perform .start (.ofRules kickingHooks)).machine
      (kickedDoor.perform (.push "Open")
        (kickedDoor.perform .start (.ofRules kickingHooks)).machine)
      (kickedDoor.pushSteps "Open"
        (kickedDoor.perform .start (.ofRules kickingHooks)).machine) :=
  push_executes Chart.isDocument_door ((Moment.created _).returned .start)
    (fun _ => List.not_mem_nil) rfl rfl

/-! ## Reentrancy -/

/-- What hooks push is recorded in the order of the hooks. -/
theorem pushedEvents_records (steps : List (HookStep σ)) :
    pushedEvents (steps.flatMap (·.record s)) = steps.flatMap (·.pushes s) := by
  induction steps with
  | nil => rfl
  | cons h steps ih =>
    rw [List.flatMap_cons, pushedEvents_append, ih]
    simp [HookStep.record, HookStep.pushes]

section Rows

variable {calls made : List HookCall} {m : Machine σ} {row : Run σ}

/-- What is pushed during a row of hooks is what its hooks push. -/
theorem Performed.pushedEvents_eq (hrow : s.Performed calls made m row) :
    pushedEvents row.trace = (s.replay m made).flatMap (·.pushes s) := by
  rw [hrow.trace_eq, pushedEvents_records]

/-- Only the last hook of a row can have pushed. -/
theorem Performed.exists_last (hrow : s.Performed calls made m row) (hmade : made ≠ []) :
    ∃ early last, s.replay m made = early ++ [last] ∧ early.flatMap (·.pushes s) = [] ∧
      row.trace = early.flatMap (·.record s) ++ last.record s := by
  have hne : s.replay m made ≠ [] := by
    intro hnil
    apply hmade
    rw [← map_call_replay (s := s) m made, hnil]
    rfl
  obtain ⟨early, last, hsteps⟩ : ∃ early last, s.replay m made = early ++ [last] :=
    ⟨_, _, (List.dropLast_concat_getLast hne).symm⟩
  refine ⟨early, last, hsteps, ?_, ?_⟩
  · rw [List.flatMap_eq_nil_iff]
    intro h hh
    refine (hrow.smooth h ?_).2
    rw [hsteps, List.dropLast_concat]
    exact hh
  · rw [hrow.trace_eq, hsteps]
    simp

/-- A row in which a hook pushes fails with the first event that is pushed. -/
theorem Performed.outcome_of_pushed (hm : m.Ready) (hrow : s.Performed calls made m row)
    {event : String} (hpushed : (pushedEvents row.trace).head? = some event) :
    row.outcome = .error (.reentrant event) := by
  have hmade : made ≠ [] := by
    rintro rfl
    rw [hrow.trace_eq] at hpushed
    cases hpushed
  obtain ⟨early, last, hsteps, hearly, _⟩ := hrow.exists_last hmade
  have hlast : (last.pushes s).head? = some event := by
    rw [hrow.pushedEvents_eq, hsteps, List.flatMap_append, hearly] at hpushed
    simpa using hpushed
  rcases hrow.ending with ⟨_, hall, _⟩ | ⟨h, hgetLast, _, hout⟩
  · have hsmooth := hall last (by rw [hsteps]; simp)
    rw [hsmooth.2] at hlast
    cases hlast
  · have hsame : h = last := by
      rw [hsteps, List.getLast?_concat] at hgetLast
      exact (Option.some.inj hgetLast).symm
    have hready : last.found.Ready := ready_replay (s := s) hm made last (by rw [hsteps]; simp)
    rw [hout, hsame, HookStep.outcome_settle hready, hlast]

/-- A row in which no hook pushes is reentrant only if a hook says so itself. -/
theorem Performed.outcome_of_unpushed (hm : m.Ready) (hrow : s.Performed calls made m row)
    (hpushed : pushedEvents row.trace = []) :
    row.outcome = .ok () ∨ ∃ h ∈ s.replay m made, row.outcome = h.returned s := by
  rcases hrow.ending with ⟨_, _, hok⟩ | ⟨h, hgetLast, _, hout⟩
  · exact Or.inl hok
  · have hmem : h ∈ s.replay m made := List.mem_of_getLast? hgetLast
    have hnone : h.pushes s = [] := by
      rw [hrow.pushedEvents_eq, List.flatMap_eq_nil_iff] at hpushed
      exact hpushed h hmem
    refine Or.inr ⟨h, hmem, ?_⟩
    rw [hout, HookStep.outcome_settle (ready_replay hm made h hmem), hnone]
    rfl

/-- Every push by a hook of a row is refused under its own name. -/
theorem Performed.refused (hm : m.Ready) (hrow : s.Performed calls made m row) {event : String}
    {outcome : Outcome} (hmem : .inner (.push event) outcome ∈ row.trace) :
    outcome = .error (.reentrant event) := by
  rw [hrow.trace_eq] at hmem
  obtain ⟨h, hh, hrecord⟩ := List.mem_flatMap.1 hmem
  obtain ⟨requests, htrace⟩ := HookStep.trace_run (s := s) (ready_replay hm made h hh)
  unfold HookStep.record at hrecord
  rw [htrace] at hrecord
  rcases List.mem_append.1 hrecord with hnotify | hrest
  · exact nomatch eq_of_mem_notify hnotify
  · rcases List.mem_cons.1 hrest with hhook | hrefused
    · cases hhook
    · obtain ⟨request, _, heq⟩ := List.mem_map.1 hrefused
      cases heq
      rfl

/-- A row ends with calls of its last hook, and everything that is pushed is pushed there. -/
theorem Performed.exists_split (hm : m.Ready) (hrow : s.Performed calls made m row) :
    ∃ before after, row.trace = before ++ after ∧ pushedEvents before = [] ∧
      hookCalls after = [] := by
  by_cases hmade : made = []
  · refine ⟨[], [], ?_, rfl, rfl⟩
    rw [hrow.trace_eq, hmade]
    rfl
  · obtain ⟨early, last, hsteps, hearly, htrace⟩ := hrow.exists_last hmade
    have hready : last.found.Ready := ready_replay (s := s) hm made last (by rw [hsteps]; simp)
    obtain ⟨requests, hlast⟩ := HookStep.trace_run (s := s) hready
    refine ⟨early.flatMap (·.record s) ++ s.notify last.call.notification ++
      [.hook last.call (s.view last.found)], requests.map Request.refused, ?_, ?_, ?_⟩
    · rw [htrace, HookStep.record, hlast]
      simp
    · simp [pushedEvents_records, hearly]
    · exact hookCalls_refused requests

end Rows

/-- Where pushes come only after the last hook call, no hook call comes after a push. -/
theorem hookCalls_after_push {before after first last : List TraceEntry} {event : String}
    {outcome : Outcome} (hbefore : pushedEvents before = []) (hafter : hookCalls after = [])
    (h : before ++ after = first ++ .inner (.push event) outcome :: last) :
    hookCalls last = [] := by
  rcases List.append_eq_append_iff.1 h with ⟨middle, _, hsplit⟩ | ⟨middle, hsplit, hrest⟩
  · rw [hsplit, hookCalls_append, List.append_eq_nil_iff] at hafter
    exact hafter.2
  · cases middle with
    | nil =>
      rw [List.nil_append] at hrest
      rw [← hrest] at hafter
      exact hafter
    | cons entry middle =>
      -- the push would be one of the entries of `before`
      obtain ⟨rfl, _⟩ := List.cons.inj hrest
      rw [hsplit, pushedEvents_append, List.append_eq_nil_iff] at hbefore
      cases hbefore.2

/-- **Reentrancy.**  Every push that a hook makes during a push is refused under its own name, the
push fails with the first of them whatever the hook returns, and no hook is called any more; a push
is reentrant for no other reason than a hook that says so. -/
theorem reentrant_push_fails (hd : s.chart.IsDocument) {stack : List Request} {m : Machine σ}
    (hm : s.Moment stack m) {event : String} (haccept : refuse? (.push event) m = none) :
    (∀ pushed outcome, .inner (.push pushed) outcome ∈ (s.perform (.push event) m).trace →
      outcome = .error (.reentrant pushed)) ∧
    (∀ pushed, (pushedEvents (s.perform (.push event) m).trace).head? = some pushed →
      (s.perform (.push event) m).outcome = .error (.reentrant pushed)) ∧
    (∀ first pushed outcome last,
      (s.perform (.push event) m).trace = first ++ .inner (.push pushed) outcome :: last →
      hookCalls last = []) ∧
    (pushedEvents (s.perform (.push event) m).trace = [] →
      (∀ h ∈ s.pushSteps event m, ∀ pushed, h.returned s ≠ .error (.reentrant pushed)) →
      ∀ pushed, (s.perform (.push event) m).outcome ≠ .error (.reentrant pushed)) := by
  have hidle := (hm.consistent hd.wellFormed).idle haccept
  have hready := hidle.ready
  cases hfound : (s.currentName? m).bind (s.chart.resolve · event) with
  | none =>
    rw [perform_push_of_unresolved haccept hidle.rejected hfound]
    refine ⟨?_, ?_, ?_, ?_⟩
    · intro pushed outcome hmem
      cases hmem
    · intro pushed hpushed
      cases hpushed
    · intro first pushed outcome last hsplit
      simp at hsplit
    · intro _ _ pushed hout
      exact complaint_ne_reentrant event m pushed (Except.error.inj hout)
  | some t =>
    obtain ⟨state, hstate, ht⟩ := Option.bind_eq_some_iff.1 hfound
    obtain ⟨row, hrow, htrace, houtcome, _⟩ := performed_push haccept hidle.rejected hstate ht
    have hpushes : pushedEvents (s.perform (.push event) m).trace = pushedEvents row.trace := by
      rw [htrace, pushedEvents_append, pushedEvents_notify, List.nil_append]
    refine ⟨?_, ?_, ?_, ?_⟩
    · intro pushed outcome hmem
      rw [htrace] at hmem
      rcases List.mem_append.1 hmem with hnotify | hmem
      · exact nomatch eq_of_mem_notify hnotify
      · exact hrow.refused hready hmem
    · intro pushed hpushed
      rw [hpushes] at hpushed
      rw [houtcome]
      exact hrow.outcome_of_pushed hready hpushed
    · intro first pushed outcome last hsplit
      obtain ⟨before, after, hrowTrace, hbefore, hafter⟩ := hrow.exists_split hready
      rw [htrace, hrowTrace, ← List.append_assoc] at hsplit
      exact hookCalls_after_push (by simp [hbefore]) hafter hsplit
    · intro hpushed hreturned pushed hout
      rw [hpushes] at hpushed
      rw [houtcome] at hout
      rcases hrow.outcome_of_unpushed hready hpushed with hok | ⟨h, hmem, hreturn⟩
      · rw [hok] at hout
        cases hout
      · exact hreturned h hmem pushed (hreturn.symm.trans hout)

/-- Opening the kicked door: the swallowed kick fails the push. -/
theorem reentrant_push_fails_kickedDoor :
    (pushedEvents (kickedDoor.perform (.push "Open")
      (kickedDoor.perform .start (.ofRules kickingHooks)).machine).trace).head? = some "Kick" ∧
    (kickedDoor.perform (.push "Open")
      (kickedDoor.perform .start (.ofRules kickingHooks)).machine).outcome =
        .error (.reentrant "Kick") := by
  have hpushed : (pushedEvents (kickedDoor.perform (.push "Open")
      (kickedDoor.perform .start (.ofRules kickingHooks)).machine).trace).head? = some "Kick" := rfl
  exact ⟨hpushed, (reentrant_push_fails Chart.isDocument_door
    ((Moment.created _).returned .start) rfl).2.1 "Kick" hpushed⟩

end MachineSetup

end Statechart
