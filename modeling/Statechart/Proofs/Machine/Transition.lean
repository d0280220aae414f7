import Statechart.Proofs.Chart.Document
import Statechart.Proofs.Machine.Calls
set_option autoImplicit false

/-!
# Machines: the hook calls of a push

A push that is carried out is a row of hook calls.  `HookStep` is one of them, with the machine that
the hook finds, and `replay` makes hook calls one after the other, whatever the hooks return; the
machine itself stops sooner.  `performPlan_spec` says where: right after the first hook that fails
or pushes an event.
-/

namespace Statechart

variable {σ : Type}

/-- A hook call, and the machine as the hook finds it. -/
structure HookStep (σ : Type) where
  call : HookCall
  found : Machine σ

namespace HookStep

/-- What the hook does. -/
def run (s : MachineSetup σ) (h : HookStep σ) : Run σ :=
  s.callHook s.perform h.call h.found

/-- What the hook itself returns. -/
def returned (s : MachineSetup σ) (h : HookStep σ) : Outcome :=
  (h.run s).outcome

/-- The events that are pushed while the hook runs. -/
def pushes (s : MachineSetup σ) (h : HookStep σ) : List String :=
  pushedEvents (h.run s).trace

/-- The machine when the hook's caller goes on. -/
def left (s : MachineSetup σ) (h : HookStep σ) : Machine σ :=
  (h.run s).settle.machine

/-- The hook succeeds and pushes nothing. -/
def Smooth (s : MachineSetup σ) (h : HookStep σ) : Prop :=
  h.returned s = .ok () ∧ h.pushes s = []

/-- What is recorded of the hook call, the notification before it included. -/
def record (s : MachineSetup σ) (h : HookStep σ) : List TraceEntry :=
  s.notify h.call.notification ++ (h.run s).trace

end HookStep

/-- A machine between two hook calls of a push: no refused event is waiting. -/
structure Machine.Ready (m : Machine σ) : Prop extends m.Busy where
  rejected : m.rejected? = none

namespace MachineSetup

variable {s : MachineSetup σ}

/-- Hook calls made one after the other. -/
def replay (s : MachineSetup σ) : Machine σ → List HookCall → List (HookStep σ)
  | _, [] => []
  | m, call :: rest =>
    let step : HookStep σ := ⟨call, s.arrive m call⟩
    step :: s.replay (step.left s) rest

/-- The machine after hook calls. -/
def reached (s : MachineSetup σ) (m : Machine σ) (steps : List (HookStep σ)) : Machine σ :=
  steps.foldl (fun _ step => step.left s) m

@[simp] theorem replay_nil (m : Machine σ) : s.replay m [] = [] := rfl

@[simp] theorem replay_cons (m : Machine σ) (call : HookCall) (rest : List HookCall) :
    s.replay m (call :: rest) =
      ⟨call, s.arrive m call⟩ :: s.replay (HookStep.left s ⟨call, s.arrive m call⟩) rest := rfl

@[simp] theorem map_call_replay (m : Machine σ) (calls : List HookCall) :
    (s.replay m calls).map (·.call) = calls := by
  induction calls generalizing m with
  | nil => rfl
  | cons call rest ih => exact congrArg (call :: ·) (ih _)

@[simp] theorem reached_nil (m : Machine σ) : s.reached m [] = m := rfl

@[simp] theorem reached_cons (m : Machine σ) (step : HookStep σ) (steps : List (HookStep σ)) :
    s.reached m (step :: steps) = s.reached (step.left s) steps := rfl

/-! ## One hook of a push -/

/-- During a push a hook can only have its calls refused, and the first push among them is
remembered. -/
theorem runScript_of_busy {m : Machine σ} (hm : m.Busy) (script : Script σ) :
    ∃ requests : List Request,
      (s.runScript s.perform m script).trace = requests.map Request.refused ∧
      (s.runScript s.perform m script).machine.Busy ∧
      (s.runScript s.perform m script).machine.current? = m.current? ∧
      (s.runScript s.perform m script).machine.rejected? =
        m.rejected?.or (requests.filterMap Request.event?).head? := by
  induction script generalizing m with
  | finish memory outcome => exact ⟨[], rfl, hm.remember memory, rfl, by simp [runScript]⟩
  | call memory request next ih =>
    have hbusy : Machine.Busy { m with memory } := hm.remember memory
    unfold runScript
    rw [perform_of_busy hbusy]
    obtain ⟨requests, htrace, hleft, hcurrent, hrejected⟩ := ih
      (({ m with memory } : Machine σ).noting request).memory (.error request.refusal)
      (s.view (({ m with memory } : Machine σ).noting request)) (hbusy.noting request)
    refine ⟨request :: requests, ?_, hleft, ?_, ?_⟩
    · simp only [Run.answer_machine, Run.answer_outcome, Run.answer_trace, Run.after_trace,
        List.nil_append, List.map_cons, htrace]
      rfl
    · rw [Run.after_machine]
      refine hcurrent.trans ?_
      cases request <;> rfl
    · rw [Run.after_machine]
      refine hrejected.trans ?_
      cases request with
      | start => rfl
      | push event => cases m.rejected? <;> simp [Machine.noting, Request.event?]

theorem ready_arrive {m : Machine σ} (hm : m.Ready) (call : HookCall) :
    (s.arrive m call).Ready := by
  refine ⟨busy_arrive hm.toBusy call, ?_⟩
  cases call with
  | action name => exact hm.rejected
  | stateChange target => exact hm.rejected

end MachineSetup

namespace HookStep

open MachineSetup

variable {s : MachineSetup σ} {h : HookStep σ}

/-- A hook of a push is told apart by its entry; all its calls are refused. -/
theorem trace_run (hready : h.found.Ready) :
    ∃ requests : List Request,
      (h.run s).trace = .hook h.call (s.view h.found) :: requests.map Request.refused := by
  obtain ⟨requests, htrace, _⟩ := runScript_of_busy (s := s) hready.toBusy
    (s.hooks.respond h.found.memory (s.view h.found) h.call)
  exact ⟨requests, congrArg (TraceEntry.hook h.call (s.view h.found) :: ·) htrace⟩

@[simp] theorem hookCalls_run (hready : h.found.Ready) : hookCalls (h.run s).trace = [h.call] := by
  obtain ⟨requests, htrace⟩ := trace_run (s := s) hready
  simp [htrace]

theorem ready_left (hready : h.found.Ready) : (h.left s).Ready := by
  obtain ⟨_, _, hbusy, _⟩ := runScript_of_busy (s := s) hready.toBusy
    (s.hooks.respond h.found.memory (s.view h.found) h.call)
  exact ⟨busy_settle hbusy, Run.settle_rejected _⟩

/-- No hook of a push moves the machine. -/
theorem current_left (hready : h.found.Ready) : (h.left s).current? = h.found.current? := by
  obtain ⟨_, _, _, hcurrent, _⟩ := runScript_of_busy (s := s) hready.toBusy
    (s.hooks.respond h.found.memory (s.view h.found) h.call)
  exact (Run.settle_current _).trans hcurrent

/-- The first event that a hook pushes is remembered when it returns. -/
theorem rejected_run (hready : h.found.Ready) :
    (h.run s).machine.rejected? = (h.pushes s).head? := by
  obtain ⟨requests, htrace, _, _, hrejected⟩ := runScript_of_busy (s := s) hready.toBusy
    (s.hooks.respond h.found.memory (s.view h.found) h.call)
  have hpushes : h.pushes s = requests.filterMap Request.event? := by
    unfold pushes run callHook
    rw [Run.after_trace, htrace]
    simp
  rw [hpushes]
  refine hrejected.trans ?_
  rw [hready.rejected, Option.none_or]

/-- **The verdict on a hook.**  If the hook pushed an event its caller fails with the first one;
otherwise the caller goes by what the hook returned. -/
theorem outcome_settle (hready : h.found.Ready) :
    (h.run s).settle.outcome =
      match (h.pushes s).head? with
      | some event => .error (.reentrant event)
      | none => h.returned s := by
  rw [← rejected_run hready]
  unfold Run.settle
  cases (h.run s).machine.rejected? with
  | none => rfl
  | some event => rfl

theorem smooth_iff (hready : h.found.Ready) :
    h.Smooth s ↔ (h.run s).settle.outcome = .ok () := by
  rw [outcome_settle hready]
  unfold Smooth
  cases hp : h.pushes s with
  | nil => simp
  | cons event rest => simp

end HookStep

namespace MachineSetup

variable {s : MachineSetup σ}

/-! ## A row of hooks -/

/-- How a row of hook calls goes: which calls are made, what is recorded of them, where the row
stops, how it ends and which machine it leaves. -/
structure Performed (s : MachineSetup σ) (calls made : List HookCall) (m : Machine σ)
    (run : Run σ) : Prop where
  hookCalls_eq : hookCalls run.trace = made
  isPrefix : made <+: calls
  ne_nil : calls ≠ [] → made ≠ []
  trace_eq : run.trace = (s.replay m made).flatMap (·.record s)
  smooth : ∀ h ∈ (s.replay m made).dropLast, h.Smooth s
  machine_eq : run.machine = s.reached m (s.replay m made)
  ending :
    (made = calls ∧ (∀ h ∈ s.replay m made, h.Smooth s) ∧ run.outcome = .ok ()) ∨
    (∃ h, (s.replay m made).getLast? = some h ∧ ¬ h.Smooth s ∧
      run.outcome = (h.run s).settle.outcome)

/-- The observer is told one thing at a time. -/
theorem eq_of_mem_notify {notification : Notification} {entry : TraceEntry}
    (h : entry ∈ s.notify notification) : entry = .debug notification := by
  unfold notify at h
  split at h
  · exact List.mem_singleton.1 h
  · exact nomatch h

@[simp] theorem hookCalls_notify (notification : Notification) :
    hookCalls (s.notify notification) = [] := by
  unfold notify
  split <;> rfl

@[simp] theorem pushedEvents_notify (notification : Notification) :
    pushedEvents (s.notify notification) = [] := by
  unfold notify
  split <;> rfl

theorem hookCalls_record {h : HookStep σ} (hready : h.found.Ready) :
    hookCalls (h.record s) = [h.call] := by
  simp [HookStep.record, HookStep.hookCalls_run hready]

/-- A row that starts with a smooth hook goes on as the rest of it does. -/
theorem Performed.cons {call : HookCall} {rest made : List HookCall} {m : Machine σ} {run : Run σ}
    (hready : (s.arrive m call).Ready) (hsmooth : HookStep.Smooth s ⟨call, s.arrive m call⟩)
    (h : s.Performed rest made (HookStep.left s ⟨call, s.arrive m call⟩) run) :
    s.Performed (call :: rest) (call :: made) m
      (run.after (HookStep.record s ⟨call, s.arrive m call⟩)) := by
  refine ⟨?_, ?_, fun _ => List.cons_ne_nil _ _, ?_, ?_, h.machine_eq, ?_⟩
  · rw [Run.after_trace, hookCalls_append, h.hookCalls_eq, hookCalls_record hready]
    rfl
  · exact List.cons_prefix_cons.2 ⟨rfl, h.isPrefix⟩
  · rw [Run.after_trace, h.trace_eq]
    rfl
  · intro step hstep
    rw [replay_cons] at hstep
    cases hsteps : s.replay (HookStep.left s ⟨call, s.arrive m call⟩) made with
    | nil => simp [hsteps] at hstep
    | cons next more =>
      rw [hsteps, List.dropLast_cons_of_ne_nil (List.cons_ne_nil _ _)] at hstep
      rcases List.mem_cons.1 hstep with rfl | hmem
      · exact hsmooth
      · exact h.smooth step (hsteps ▸ hmem)
  · rcases h.ending with ⟨hmade, hall, hout⟩ | ⟨last, hlast, hrough, hout⟩
    · refine Or.inl ⟨congrArg (call :: ·) hmade, ?_, hout⟩
      intro step hstep
      rcases List.mem_cons.1 hstep with rfl | hmem
      · exact hsmooth
      · exact hall step hmem
    · refine Or.inr ⟨last, ?_, hrough, hout⟩
      rw [replay_cons, List.getLast?_cons, hlast]
      rfl

theorem performed_nil (m : Machine σ) : s.Performed [] [] m (s.performPlan s.perform [] m) := by
  refine ⟨rfl, List.prefix_rfl, fun h => absurd rfl h, rfl, ?_, rfl, Or.inl ⟨rfl, ?_, rfl⟩⟩
  · exact fun _ hh => absurd hh List.not_mem_nil
  · exact fun _ hh => absurd hh List.not_mem_nil

/-- A row that starts with a hook that fails or pushes stops right after it. -/
theorem performed_singleton {call : HookCall} {m : Machine σ} (hready : (s.arrive m call).Ready)
    (hrough : ¬ HookStep.Smooth s ⟨call, s.arrive m call⟩) (rest : List HookCall) {run : Run σ}
    (htrace : run.trace = HookStep.record s ⟨call, s.arrive m call⟩)
    (hmachine : run.machine = HookStep.left s ⟨call, s.arrive m call⟩)
    (houtcome : run.outcome = (HookStep.run s ⟨call, s.arrive m call⟩).settle.outcome) :
    s.Performed (call :: rest) [call] m run := by
  refine ⟨?_, ?_, fun _ => List.cons_ne_nil _ _, ?_, ?_, hmachine, ?_⟩
  · rw [htrace]
    exact hookCalls_record hready
  · exact List.cons_prefix_cons.2 ⟨rfl, List.nil_prefix⟩
  · rw [htrace]
    simp
  · exact fun _ hh => absurd hh List.not_mem_nil
  · exact Or.inr ⟨_, rfl, hrough, houtcome⟩

/-- **Rows of hooks.**  A row of hook calls stops after the first hook that fails or pushes. -/
theorem performPlan_spec {m : Machine σ} (hm : m.Ready) (calls : List HookCall) :
    ∃ made, s.Performed calls made m (s.performPlan s.perform calls m) := by
  induction calls generalizing m with
  | nil => exact ⟨[], performed_nil m⟩
  | cons call rest ih =>
    have hready : (s.arrive m call).Ready := ready_arrive hm call
    have hhook : s.performHook s.perform call m =
        ((HookStep.run s ⟨call, s.arrive m call⟩).settle).after (s.notify call.notification) := rfl
    have hrecord : (s.performHook s.perform call m).trace =
        HookStep.record s ⟨call, s.arrive m call⟩ := by
      rw [hhook, Run.after_trace, Run.settle_trace]
      rfl
    unfold performPlan
    cases hout : (s.performHook s.perform call m).outcome with
    | ok =>
      have hsmooth : HookStep.Smooth s ⟨call, s.arrive m call⟩ :=
        (HookStep.smooth_iff hready).2 hout
      obtain ⟨made, hmade⟩ := ih
        (HookStep.ready_left (s := s) (h := ⟨call, s.arrive m call⟩) hready)
      refine ⟨call :: made, ?_⟩
      rw [Run.andThen_of_ok hout, hrecord]
      exact hmade.cons hready hsmooth
    | error e =>
      have hrough : ¬ HookStep.Smooth s ⟨call, s.arrive m call⟩ := by
        intro hsmooth
        have hok : (s.performHook s.perform call m).outcome = .ok () :=
          (HookStep.smooth_iff hready).1 hsmooth
        rw [hout] at hok
        cases hok
      rw [Run.andThen_of_error hout]
      exact ⟨[call], performed_singleton hready hrough rest hrecord rfl rfl⟩

/-- The hooks of a row find the machine ready, as the row does. -/
theorem ready_replay {m : Machine σ} (hm : m.Ready) (calls : List HookCall) :
    ∀ h ∈ s.replay m calls, h.found.Ready := by
  induction calls generalizing m with
  | nil =>
    intro h hh
    exact nomatch hh
  | cons call rest ih =>
    have hready : (s.arrive m call).Ready := ready_arrive hm call
    intro h hh
    rcases List.mem_cons.1 hh with rfl | hmem
    · exact hready
    · exact ih (HookStep.ready_left (s := s) (h := ⟨call, s.arrive m call⟩) hready) h hmem

/-- A row that stops early stops after a hook that fails or pushes. -/
theorem Performed.exists_rough {calls made : List HookCall} {m : Machine σ} {run : Run σ}
    (hrow : s.Performed calls made m run) (hne : made ≠ calls) :
    ∃ h, (s.replay m made).getLast? = some h ∧ ¬ h.Smooth s := by
  rcases hrow.ending with ⟨hmade, _⟩ | ⟨h, hlast, hrough, _⟩
  · exact absurd hmade hne
  · exact ⟨h, hlast, hrough⟩

/-- A row succeeds exactly if all its calls are made and every hook is smooth. -/
theorem Performed.outcome_eq_ok_iff {calls made : List HookCall} {m : Machine σ} {run : Run σ}
    (hm : m.Ready) (hrow : s.Performed calls made m run) :
    run.outcome = .ok () ↔ made = calls ∧ ∀ h ∈ s.replay m made, h.Smooth s := by
  rcases hrow.ending with ⟨hmade, hall, hok⟩ | ⟨h, hlast, hrough, hout⟩
  · exact ⟨fun _ => ⟨hmade, hall⟩, fun _ => hok⟩
  · have hmem : h ∈ s.replay m made := List.mem_of_getLast? hlast
    constructor
    · intro hok
      exact absurd ((HookStep.smooth_iff (ready_replay hm made h hmem)).2 (hout.symm.trans hok))
        hrough
    · intro hall
      exact absurd (hall.2 h hmem) hrough

/-! ## Where the machine is along a row -/

/-- The actions of a transition find the machine where it was, and only the last hook finds it moved
to the target. -/
theorem current_of_prefix_plan {m : Machine σ} (hm : m.Ready) {actions : List String}
    {target : String} {made : List HookCall}
    (hmade : made <+: actions.map .action ++ [.stateChange target]) :
    (∀ h ∈ s.replay m made, h.found.Ready ∧
      h.found.current? = match h.call with
        | .action _ => m.current?
        | .stateChange _ => s.chart.position? target) ∧
    (s.reached m (s.replay m made)).Ready ∧
    (s.reached m (s.replay m made)).current? =
      if .stateChange target ∈ made then s.chart.position? target else m.current? := by
  induction actions generalizing m made with
  | nil =>
    cases made with
    | nil =>
      refine ⟨?_, hm, rfl⟩
      intro h hh
      exact nomatch hh
    | cons call rest =>
      obtain ⟨rfl, hrest⟩ := List.cons_prefix_cons.1 hmade
      obtain rfl := List.prefix_nil.1 hrest
      have hready : (s.arrive m (.stateChange target)).Ready := ready_arrive hm _
      refine ⟨?_, HookStep.ready_left (s := s) (h := ⟨_, _⟩) hready, ?_⟩
      · intro h hh
        obtain rfl := List.mem_singleton.1 hh
        exact ⟨hready, rfl⟩
      · rw [if_pos (List.mem_singleton.2 rfl)]
        exact HookStep.current_left (s := s) (h := ⟨_, _⟩) hready
  | cons action actions ih =>
    cases made with
    | nil =>
      refine ⟨?_, hm, rfl⟩
      intro h hh
      exact nomatch hh
    | cons call rest =>
      obtain ⟨rfl, hrest⟩ := List.cons_prefix_cons.1 hmade
      have hleft : (HookStep.left s ⟨.action action, m⟩).current? = m.current? :=
        HookStep.current_left (s := s) (h := ⟨_, _⟩) hm
      obtain ⟨hsteps, hready, hcurrent⟩ :=
        ih (HookStep.ready_left (s := s) (h := ⟨.action action, m⟩) hm) hrest
      refine ⟨?_, hready, ?_⟩
      · intro h hh
        rcases List.mem_cons.1 hh with rfl | hmem
        · exact ⟨hm, rfl⟩
        · rw [← hleft]
          exact hsteps h hmem
      · have hmem : (HookCall.stateChange target ∈ HookCall.action action :: rest) ↔
            HookCall.stateChange target ∈ rest := by simp
        simp only [hmem, ← hleft]
        exact hcurrent

/-! ## Pushes -/

/-- The hook calls that a push makes, each with the machine that the hook finds. -/
def pushSteps (s : MachineSetup σ) (event : String) (m : Machine σ) : List (HookStep σ) :=
  s.replay { m with pushing := true } (hookCalls (s.perform (.push event) m).trace)

/-- An event that resolves to a transition is declared. -/
theorem mem_events_of_resolve {c : Chart} {state event : String} {t : Transition}
    (h : c.resolve state event = some t) : event ∈ c.events :=
  Chart.mem_events.2 ⟨t, Chart.mem_transitions_of_resolve h, Chart.event_of_resolve h⟩

/-- A push that is carried out and finds a transition makes the transition's hook calls. -/
theorem perform_push_of_resolve {event state : String} {m : Machine σ} {t : Transition}
    (hrefuse : refuse? (.push event) m = none) (hstate : s.currentName? m = some state)
    (ht : s.chart.resolve state event = some t) :
    s.perform (.push event) m =
      ((s.performPlan s.perform t.plan { m with pushing := true }).after
        (s.notify (.event event))).release := by
  have hname : s.currentName? { m with pushing := true } = some state := hstate
  have hevent : ¬ event ∉ s.chart.events := not_not_intro (mem_events_of_resolve ht)
  rw [perform_of_accept hrefuse, accept_push]
  unfold dispatch
  rw [if_neg hevent, hname]
  simp only [ht]
  rw [take_eq]

/-- A push that finds a transition is the row of the transition's hook calls: what is recorded of it
is that of the row after the event, it ends as the row ends, and it leaves the machine as the row
does, with the push at its end. -/
theorem performed_push {event state : String} {m : Machine σ} {t : Transition}
    (hrefuse : refuse? (.push event) m = none) (hrejected : m.rejected? = none)
    (hstate : s.currentName? m = some state) (ht : s.chart.resolve state event = some t) :
    ∃ row : Run σ,
      s.Performed t.plan (hookCalls (s.perform (.push event) m).trace) { m with pushing := true }
        row ∧
      (s.perform (.push event) m).trace = s.notify (.event event) ++ row.trace ∧
      (s.perform (.push event) m).outcome = row.outcome ∧
      (s.perform (.push event) m).machine =
        { row.machine with pushing := false, rejected? := none } := by
  obtain ⟨hstarted, _⟩ := refuse?_push_eq_none_iff.1 hrefuse
  have hready : Machine.Ready { m with pushing := true } := ⟨⟨hstarted, rfl⟩, hrejected⟩
  obtain ⟨made, hmade⟩ := performPlan_spec (s := s) hready t.plan
  have heq := perform_push_of_resolve hrefuse hstate ht
  have hcalls : hookCalls (s.perform (.push event) m).trace = made := by
    rw [heq]
    exact (hookCalls_append _ _).trans (by rw [hookCalls_notify, hmade.hookCalls_eq]; rfl)
  exact ⟨_, hcalls ▸ hmade, heq ▸ rfl, heq ▸ rfl, heq ▸ rfl⟩

/-- Why an event that resolves to no transition is turned down. -/
def complaint (s : MachineSetup σ) (event : String) (m : Machine σ) : MachineError :=
  if event ∉ s.chart.events then .unknownEvent event
  else
    match s.currentName? m with
    | none => .notStarted
    | some state => .unhandled event state

theorem complaint_ne_reentrant (event : String) (m : Machine σ) (pushed : String) :
    s.complaint event m ≠ .reentrant pushed := by
  unfold complaint
  split
  · exact nofun
  · split <;> exact nofun

/-- A push that is carried out and finds no transition calls no hook and changes nothing. -/
theorem perform_push_of_unresolved {event : String} {m : Machine σ}
    (hrefuse : refuse? (.push event) m = none) (hrejected : m.rejected? = none)
    (hnone : (s.currentName? m).bind (s.chart.resolve · event) = none) :
    s.perform (.push event) m = .answer m (.error (s.complaint event m)) := by
  obtain ⟨_, hpushing⟩ := refuse?_push_eq_none_iff.1 hrefuse
  have hname : s.currentName? { m with pushing := true } = s.currentName? m := rfl
  have hback : ∀ e, (Run.answer { m with pushing := true } (.error e)).release =
      Run.answer m (.error e) := by
    intro e
    unfold Run.release Run.answer
    rw [← hpushing, ← hrejected]
  rw [perform_of_accept hrefuse, accept_push]
  unfold dispatch complaint
  rw [hname]
  by_cases hevent : event ∉ s.chart.events
  · rw [if_pos hevent, if_pos hevent]
    exact hback _
  · rw [if_neg hevent, if_neg hevent]
    cases hstate : s.currentName? m with
    | none => exact hback _
    | some state =>
      have hresolve : s.chart.resolve state event = none := by
        rw [hstate] at hnone
        exact hnone
      simp only [hresolve]
      exact hback _

end MachineSetup

end Statechart
