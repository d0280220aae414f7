import Mathlib.Logic.Relation
import Statechart.Proofs.Machine.Transition
set_option autoImplicit false

/-!
# Machines, step by step

The work of a machine cut into single steps.  A configuration holds what is done next, the hooks that
wait for the answer to a call of their own, the machine, and what has happened.  `step` knows no
bound on the nesting of calls: a hook that calls the machine is put aside, whatever else is waiting.

`leads_perform` says that from every call the steps lead to what `perform` answers, so `perform`
describes the steps of all calls, and every call comes back.
-/

namespace Statechart

variable {σ : Type}

/-- A call that is being carried out; of a push, with the hook calls that are still to be made. -/
inductive Activity where
  | start
  | push (event : String) (rest : List HookCall)
  deriving DecidableEq, Repr, Inhabited

/-- The call that an activity carries out. -/
def Activity.request : Activity → Request
  | .start => .start
  | .push event _ => .push event

/-- What is done next. -/
inductive Control (σ : Type) where
  /-- the machine answers a call -/
  | calling (request : Request)
  /-- a push that has been accepted looks for its transition -/
  | dispatching (event : String)
  /-- a push goes on with its hook calls -/
  | proceeding (event : String) (rest : List HookCall)
  /-- a hook goes on with its program -/
  | running (activity : Activity) (script : Script σ)
  /-- a hook has returned to the call that called it -/
  | settling (activity : Activity) (outcome : Outcome)
  /-- a push is done -/
  | ending (event : String) (outcome : Outcome)
  /-- a call has come back -/
  | returning (outcome : Outcome)

/-- What a push does after a hook, by the verdict on the hook. -/
def Control.afterHook (event : String) (rest : List HookCall) : Outcome → Control σ
  | .ok () => .proceeding event rest
  | .error e => .ending event (.error e)

/-- A hook that has called the machine: whose hook it is, what it asked for, and how it goes on. -/
structure WaitingHook (σ : Type) where
  activity : Activity
  request : Request
  next : σ → Outcome → MachineView → Script σ

/-- A moment of a run: what is done next, the waiting hooks, the innermost first, the machine, and
what has happened since the call from outside. -/
structure Config (σ : Type) where
  control : Control σ
  waiting : List (WaitingHook σ)
  machine : Machine σ
  trace : List TraceEntry

namespace Config

/-- A call from outside. -/
def ofCall (request : Request) (m : Machine σ) : Config σ :=
  ⟨.calling request, [], m, []⟩

/-- The end of a run that began with `trace`; `control` says what becomes of its outcome. -/
def ofEnd (control : Outcome → Control σ) (waiting : List (WaitingHook σ))
    (trace : List TraceEntry) (run : Run σ) : Config σ :=
  ⟨control run.outcome, waiting, run.machine, trace ++ run.trace⟩

/-- The end of a call from outside. -/
def ofRun (run : Run σ) : Config σ :=
  ofEnd .returning [] [] run

theorem ofEnd_after (control : Outcome → Control σ) (waiting : List (WaitingHook σ))
    (trace entries : List TraceEntry) (run : Run σ) :
    ofEnd control waiting trace (run.after entries) =
      ofEnd control waiting (trace ++ entries) run := by
  unfold ofEnd Run.after
  rw [List.append_assoc]

theorem ofEnd_answer (control : Outcome → Control σ) (waiting : List (WaitingHook σ))
    (trace : List TraceEntry) (m : Machine σ) (outcome : Outcome) :
    ofEnd control waiting trace (.answer m outcome) = ⟨control outcome, waiting, m, trace⟩ := by
  unfold ofEnd Run.answer
  rw [List.append_nil]

theorem ofEnd_afterHook_of_ok {event : String} {rest : List HookCall}
    {waiting : List (WaitingHook σ)} {trace : List TraceEntry} {run : Run σ}
    (h : run.outcome = .ok ()) :
    ofEnd (.afterHook event rest) waiting trace run =
      ⟨.proceeding event rest, waiting, run.machine, trace ++ run.trace⟩ := by
  unfold ofEnd
  rw [h]
  rfl

theorem ofEnd_afterHook_of_error {event : String} {rest : List HookCall}
    {waiting : List (WaitingHook σ)} {trace : List TraceEntry} {run : Run σ} {e : MachineError}
    (h : run.outcome = .error e) :
    ofEnd (.afterHook event rest) waiting trace run = ofEnd (.ending event) waiting trace run := by
  unfold ofEnd
  rw [h]
  rfl

end Config

namespace MachineSetup

variable {s : MachineSetup σ}

/-- A hook is called. -/
def summon (s : MachineSetup σ) (activity : Activity) (call : HookCall) (c : Config σ) : Config σ :=
  { c with
    control := .running activity (s.hooks.respond c.machine.memory (s.view c.machine) call)
    trace := c.trace ++ [.hook call (s.view c.machine)] }

/-- A call that is not refused begins. -/
def begin (s : MachineSetup σ) (c : Config σ) : Request → Config σ
  | .start =>
    s.summon .start (.stateChange s.chart.initial)
      { c with machine :=
          { c.machine with
            lifecycle := .started, current? := s.chart.position? s.chart.initial } }
  | .push event =>
    { c with control := .dispatching event, machine := { c.machine with pushing := true } }

/-- What comes after a configuration; nothing does when a call from outside has come back. -/
def step (s : MachineSetup σ) (c : Config σ) : Option (Config σ) :=
  match c.control with
  | .calling request =>
    match refuse? request c.machine with
    | some run =>
      some { c with
        control := .returning run.outcome, machine := run.machine, trace := c.trace ++ run.trace }
    | none => some (s.begin c request)
  | .dispatching event =>
    match (s.currentName? c.machine).bind (s.chart.resolve · event) with
    | some t =>
      some { c with
        control := .proceeding event t.plan, trace := c.trace ++ s.notify (.event event) }
    | none => some { c with control := .ending event (.error (s.complaint event c.machine)) }
  | .proceeding event [] => some { c with control := .ending event (.ok ()) }
  | .proceeding event (call :: rest) =>
    some (s.summon (.push event rest) call
      { c with
        machine := s.arrive c.machine call, trace := c.trace ++ s.notify call.notification })
  | .running activity (.finish memory outcome) =>
    some { c with control := .settling activity outcome, machine := { c.machine with memory } }
  | .running activity (.call memory request next) =>
    some { c with
      control := .calling request
      waiting := ⟨activity, request, next⟩ :: c.waiting
      machine := { c.machine with memory } }
  | .settling .start outcome => some { c with control := .returning outcome }
  | .settling (.push event rest) outcome =>
    match c.machine.rejected? with
    | some pushed =>
      some { c with
        control := .afterHook event rest (.error (.reentrant pushed))
        machine := { c.machine with rejected? := none } }
    | none => some { c with control := .afterHook event rest outcome }
  | .ending _ outcome =>
    some { c with
      control := .returning outcome
      machine := { c.machine with pushing := false, rejected? := none } }
  | .returning outcome =>
    match c.waiting with
    | [] => none
    | hook :: waiting =>
      some { c with
        control := .running hook.activity
          (hook.next c.machine.memory outcome (s.view c.machine))
        waiting
        trace := c.trace ++ [.inner hook.request outcome] }

/-- Some steps lead from one configuration to the other. -/
def Leads (s : MachineSetup σ) : Config σ → Config σ → Prop :=
  Relation.ReflTransGen fun c d => s.step c = some d

/-- The steps from a call lead to the answer that `perform` gives, whatever is waiting. -/
def Answers (s : MachineSetup σ) (request : Request) (m : Machine σ) : Prop :=
  ∀ waiting trace, s.Leads ⟨.calling request, waiting, m, trace⟩
    (.ofEnd .returning waiting trace (s.perform request m))

/-- A refused call is answered in one step. -/
theorem answers_of_refuse? {request : Request} {m : Machine σ} {run : Run σ}
    (h : refuse? request m = some run) : s.Answers request m := by
  intro waiting trace
  refine .single ?_
  rw [perform_of_refuse? h]
  simp only [step, h]
  rfl

/-! ## Hooks -/

section Scripts

variable {P : Machine σ → Prop}

/-- The steps of a hook lead to what its program gives, if its calls are answered. -/
theorem leads_runScript (hP : Kept s.perform P)
    (hanswers : ∀ request m, P m → s.Answers request m) {m : Machine σ} (hm : P m)
    (activity : Activity) (script : Script σ) (waiting : List (WaitingHook σ))
    (trace : List TraceEntry) :
    s.Leads ⟨.running activity script, waiting, m, trace⟩
      (.ofEnd (.settling activity) waiting trace (s.runScript s.perform m script)) := by
  induction script generalizing m trace with
  | finish memory outcome =>
    unfold runScript
    rw [Config.ofEnd_answer]
    exact .single rfl
  | call memory request next ih =>
    have hmem : P { m with memory } := hP.remember m memory hm
    unfold runScript
    rw [Config.ofEnd_after, ← List.append_assoc]
    -- the hook is put aside, its call is answered, and it is taken up again
    refine .head rfl (.trans (hanswers request _ hmem _ trace) (.head rfl ?_))
    exact ih _ _ _ (hP.call request _ hmem) _

/-- The steps of a hook call lead to what the hook gives. -/
theorem leads_callHook (hP : Kept s.perform P)
    (hanswers : ∀ request m, P m → s.Answers request m) {m : Machine σ} (hm : P m)
    (activity : Activity) (call : HookCall) (control : Control σ)
    (waiting : List (WaitingHook σ)) (trace : List TraceEntry) :
    s.Leads (s.summon activity call ⟨control, waiting, m, trace⟩)
      (.ofEnd (.settling activity) waiting trace (s.callHook s.perform call m)) := by
  unfold callHook
  rw [Config.ofEnd_after]
  exact leads_runScript hP hanswers hm activity _ waiting _

end Scripts

/-! ## Pushes -/

theorem answers_of_busy {m : Machine σ} (h : m.Busy) (request : Request) : s.Answers request m :=
  answers_of_refuse? (refuse?_of_busy h request)

/-- A push goes by the verdict on the hook that has returned. -/
theorem step_settling (event : String) (rest : List HookCall) (waiting : List (WaitingHook σ))
    (trace : List TraceEntry) (run : Run σ) :
    s.step (.ofEnd (.settling (.push event rest)) waiting trace run) =
      some (.ofEnd (.afterHook event rest) waiting trace run.settle) := by
  simp only [step, Config.ofEnd, Run.settle]
  cases hrejected : run.machine.rejected? with
  | some pushed => rfl
  | none => rfl

/-- The steps of a row of hook calls lead to what the row gives. -/
theorem leads_performPlan {m : Machine σ} (hm : m.Busy) (event : String) (calls : List HookCall)
    (waiting : List (WaitingHook σ)) (trace : List TraceEntry) :
    s.Leads ⟨.proceeding event calls, waiting, m, trace⟩
      (.ofEnd (.ending event) waiting trace (s.performPlan s.perform calls m)) := by
  induction calls generalizing m trace with
  | nil =>
    unfold performPlan
    rw [Config.ofEnd_answer]
    exact .single rfl
  | cons call rest ih =>
    have hbusy : (s.performHook s.perform call m).machine.Busy :=
      busy_performHook (kept_busy s 2) hm call
    have hhook := leads_callHook (s := s) (kept_busy s 2)
      (fun request m hm => answers_of_busy hm request) (busy_arrive (s := s) hm call)
      (.push event rest) call (.proceeding event (call :: rest)) waiting
      (trace ++ s.notify call.notification)
    have hsettle := (step_settling (s := s) event rest waiting (trace ++ s.notify call.notification)
      (s.callHook s.perform call (s.arrive m call))).trans
        (congrArg some (Config.ofEnd_after _ _ trace _ _).symm)
    refine .head rfl (.trans hhook (.head hsettle ?_))
    unfold performPlan
    cases hout : (s.performHook s.perform call m).outcome with
    | ok =>
      rw [Run.andThen_of_ok hout, Config.ofEnd_after _ _ trace (s.performHook s.perform call m).trace]
      exact Config.ofEnd_afterHook_of_ok hout ▸ ih hbusy _
    | error e =>
      rw [Run.andThen_of_error hout]
      exact Config.ofEnd_afterHook_of_error hout ▸ .refl

/-- A push that is accepted finds its transition or complains. -/
theorem dispatch_eq (perform : Request → Machine σ → Run σ) (event : String) (m : Machine σ) :
    s.dispatch perform event m =
      match (s.currentName? m).bind (s.chart.resolve · event) with
      | some t => s.take perform event t m
      | none => .answer m (.error (s.complaint event m)) := by
  unfold dispatch complaint
  by_cases hevent : event ∈ s.chart.events
  · rw [if_neg (not_not_intro hevent), if_neg (not_not_intro hevent)]
    cases hstate : s.currentName? m with
    | none => rfl
    | some state =>
      simp only [Option.bind_some]
      cases s.chart.resolve state event with
      | none => rfl
      | some t => rfl
  · have hnone : (s.currentName? m).bind (s.chart.resolve · event) = none := by
      rw [Option.bind_eq_none_iff]
      intro state _
      cases ht : s.chart.resolve state event with
      | none => rfl
      | some t => exact absurd (mem_events_of_resolve ht) hevent
    rw [if_pos hevent, if_pos hevent, hnone]

/-- A push is answered when it finds the machine started. -/
theorem answers_push {m : Machine σ} (hstarted : m.lifecycle = .started) (event : String) :
    s.Answers (.push event) m := by
  cases hrefuse : refuse? (.push event) m with
  | some run => exact answers_of_refuse? hrefuse
  | none =>
    have hbusy : Machine.Busy { m with pushing := true } := ⟨hstarted, rfl⟩
    intro waiting trace
    rw [perform_of_accept hrefuse, accept_push, dispatch_eq]
    have hcalling : s.step ⟨.calling (.push event), waiting, m, trace⟩ =
        some ⟨.dispatching event, waiting, { m with pushing := true }, trace⟩ := by
      simp only [step, hrefuse]
      rfl
    have hending : ∀ run : Run σ, s.step (.ofEnd (.ending event) waiting trace run) =
        some (.ofEnd .returning waiting trace run.release) := fun _ => rfl
    refine .head hcalling (.tail ?_ (hending _))
    cases hfound : (s.currentName? { m with pushing := true }).bind
        (s.chart.resolve · event) with
    | none =>
      rw [Config.ofEnd_answer]
      refine .single ?_
      simp only [step, hfound]
    | some t =>
      simp only [take_eq, Config.ofEnd_after]
      refine .head ?_ (leads_performPlan hbusy event t.plan waiting _)
      simp only [step, hfound]

/-! ## All calls -/

theorem answers_of_started {m : Machine σ} (hstarted : m.lifecycle = .started)
    (request : Request) : s.Answers request m := by
  cases request with
  | start => exact answers_of_refuse? (refuse?_start_of_started hstarted)
  | push event => exact answers_push hstarted event

/-- **Every call is answered.**  The steps from a call lead to what `perform` gives. -/
theorem answers (request : Request) (m : Machine σ) : s.Answers request m := by
  cases hrefuse : refuse? request m with
  | some run => exact answers_of_refuse? hrefuse
  | none =>
    cases request with
    | push event => exact answers_push (refuse?_push_eq_none_iff.1 hrefuse).1 event
    | start =>
      intro waiting trace
      rw [perform_of_accept hrefuse]
      -- the hook that start calls finds the machine started, and its calls leave it so
      have hhook := leads_callHook (s := s) (kept_started s 1)
        (fun request m hm => answers_of_started hm request)
        (m := { m with
          lifecycle := .started, current? := s.chart.position? s.chart.initial }) rfl
        .start (.stateChange s.chart.initial) (.calling .start) waiting trace
      refine .head ?_ (.tail hhook rfl)
      simp only [step, hrefuse]
      rfl

theorem leads_perform (request : Request) (m : Machine σ) :
    s.Leads (.ofCall request m) (.ofRun (s.perform request m)) :=
  answers request m [] []

end MachineSetup

/-! ## What a step can change -/

/-- The hook calls that an activity has still to make. -/
def Activity.rest : Activity → List HookCall
  | .start => []
  | .push _ rest => rest

/-- The call that is being carried out. -/
def Control.active? : Control σ → Option Request
  | .dispatching event => some (.push event)
  | .proceeding event _ => some (.push event)
  | .running activity _ => some activity.request
  | .settling activity _ => some activity.request
  | .ending event _ => some (.push event)
  | .calling _ => none
  | .returning _ => none

/-- The hook calls that this call has still to make. -/
def Control.rest : Control σ → List HookCall
  | .proceeding _ rest => rest
  | .running activity _ => activity.rest
  | .settling activity _ => activity.rest
  | .calling _ => []
  | .dispatching _ => []
  | .ending _ _ => []
  | .returning _ => []

namespace Config

/-- The calls that are being carried out, the innermost first. -/
def active (c : Config σ) : List Request :=
  c.control.active?.toList ++ c.waiting.map (·.activity.request)

/-- The hook calls that these calls have still to make. -/
def pending (c : Config σ) : List HookCall :=
  c.control.rest ++ c.waiting.flatMap (·.activity.rest)

end Config

/-- The part of a machine that decides how it answers calls. -/
def Machine.situation (m : Machine σ) : Lifecycle × Option Nat × Bool :=
  (m.lifecycle, m.current?, m.pushing)

theorem Machine.eq_of_situation {m : Machine σ} {lifecycle : Lifecycle} {current? : Option Nat}
    {pushing : Bool} (h : m.situation = (lifecycle, current?, pushing)) :
    m.lifecycle = lifecycle ∧ m.current? = current? ∧ m.pushing = pushing := by
  simpa [Machine.situation] using h

/-- The verdict on a hook does not change the situation. -/
theorem Run.situation_settle (run : Run σ) :
    run.settle.machine.situation = run.machine.situation := by
  unfold Run.settle
  split <;> rfl

theorem Control.active?_afterHook (event : String) (rest : List HookCall) (outcome : Outcome) :
    (Control.afterHook event rest outcome : Control σ).active? = some (.push event) := by
  cases outcome <;> rfl

theorem Control.rest_afterHook_subset (event : String) (rest : List HookCall)
    (outcome : Outcome) : (Control.afterHook event rest outcome : Control σ).rest ⊆ rest := by
  cases outcome with
  | ok => exact List.Subset.refl _
  | error e => exact List.nil_subset _

namespace MachineSetup

variable {s : MachineSetup σ}

/-- What a step can change of the calls that are being carried out, of the hook calls that they have
still to make, and of the situation of the machine. -/
inductive Shift (s : MachineSetup σ) (c d : Config σ) : Prop where
  /-- nothing changes -/
  | quiet (hactive : d.active = c.active) (hpending : d.pending ⊆ c.pending)
    (hsituation : d.machine.situation = c.machine.situation)
  /-- a start is accepted -/
  | started (hnot : c.machine.lifecycle = .notStarted) (hactive : d.active = .start :: c.active)
    (hpending : d.pending ⊆ c.pending)
    (hsituation : d.machine.situation =
      (.started, s.chart.position? s.chart.initial, c.machine.pushing))
  /-- a push is accepted -/
  | pushed (event : String) (hstarted : c.machine.lifecycle = .started)
    (hidle : c.machine.pushing = false) (hactive : d.active = .push event :: c.active)
    (hpending : d.pending ⊆ c.pending)
    (hsituation : d.machine.situation = (.started, c.machine.current?, true))
  /-- a push finds its transition -/
  | resolved {state event : String} {t : Transition} (hstate : s.currentName? c.machine = some state)
    (ht : s.chart.resolve state event = some t) (hactive : d.active = c.active)
    (hpending : d.pending ⊆ t.plan ++ c.pending)
    (hsituation : d.machine.situation = c.machine.situation)
  /-- a push enters its target -/
  | entered (target : String) (htarget : .stateChange target ∈ c.pending)
    (hactive : d.active = c.active) (hpending : d.pending ⊆ c.pending)
    (hsituation : d.machine.situation =
      (c.machine.lifecycle, s.chart.position? target, c.machine.pushing))
  /-- a start is done -/
  | startDone (hactive : c.active = .start :: d.active) (hpending : d.pending ⊆ c.pending)
    (hsituation : d.machine.situation = c.machine.situation)
  /-- a push is done -/
  | pushDone (event : String) (hactive : c.active = .push event :: d.active)
    (hpending : d.pending ⊆ c.pending)
    (hsituation : d.machine.situation = (c.machine.lifecycle, c.machine.current?, false))

/-- A refused call does not change the situation. -/
theorem situation_of_refuse? {request : Request} {m : Machine σ} {run : Run σ}
    (h : refuse? request m = some run) : run.machine.situation = m.situation := by
  cases hpushing : m.pushing with
  | false => rw [machine_of_refuse? h hpushing]
  | true =>
    cases hlifecycle : m.lifecycle with
    | started =>
      rw [refuse?_of_busy ⟨hlifecycle, hpushing⟩] at h
      obtain rfl := Option.some.inj h
      cases request <;> rfl
    | notStarted =>
      cases request with
      | start => simp [refuse?, hlifecycle] at h
      | push event =>
        simp only [refuse?, hlifecycle, Option.some.injEq] at h
        exact h ▸ rfl

/-- **What a step can change.** -/
theorem shift_of_step {c d : Config σ} (h : s.step c = some d) : s.Shift c d := by
  obtain ⟨control, waiting, m, trace⟩ := c
  cases control with
  | calling request =>
    cases hrefuse : refuse? request m with
    | some run =>
      simp only [step, hrefuse, Option.some.injEq] at h
      subst h
      exact .quiet rfl (List.Subset.refl _) (situation_of_refuse? hrefuse)
    | none =>
      simp only [step, hrefuse, Option.some.injEq] at h
      subst h
      cases request with
      | start =>
        exact .started (refuse?_start_eq_none_iff.1 hrefuse) rfl (List.Subset.refl _) rfl
      | push event =>
        obtain ⟨hstarted, hidle⟩ := refuse?_push_eq_none_iff.1 hrefuse
        refine .pushed event hstarted hidle rfl (List.Subset.refl _) ?_
        exact congrArg (·, m.current?, true) hstarted
  | dispatching event =>
    cases hfound : (s.currentName? m).bind (s.chart.resolve · event) with
    | some t =>
      obtain ⟨state, hstate, ht⟩ := Option.bind_eq_some_iff.1 hfound
      simp only [step, hfound, Option.some.injEq] at h
      subst h
      exact .resolved hstate ht rfl (List.Subset.refl _) rfl
    | none =>
      simp only [step, hfound, Option.some.injEq] at h
      subst h
      exact .quiet rfl (List.Subset.refl _) rfl
  | proceeding event rest =>
    cases rest with
    | nil =>
      obtain rfl := Option.some.inj h
      exact .quiet rfl (List.Subset.refl _) rfl
    | cons call rest =>
      obtain rfl := Option.some.inj h
      cases call with
      | action name => exact .quiet rfl (List.subset_cons_self _ _) rfl
      | stateChange target =>
        exact .entered target List.mem_cons_self rfl (List.subset_cons_self _ _) rfl
  | running activity script =>
    cases script with
    | finish memory outcome =>
      obtain rfl := Option.some.inj h
      exact .quiet rfl (List.Subset.refl _) rfl
    | call memory request next =>
      obtain rfl := Option.some.inj h
      exact .quiet rfl (List.Subset.refl _) rfl
  | settling activity outcome =>
    cases activity with
    | start =>
      obtain rfl := Option.some.inj h
      exact .startDone rfl (List.Subset.refl _) rfl
    | push event rest =>
      obtain rfl := Option.some.inj
        (h.symm.trans (step_settling event rest waiting [] ⟨m, trace, outcome⟩))
      refine .quiet ?_ ?_ (Run.situation_settle _)
      · unfold Config.active Config.ofEnd
        rw [Control.active?_afterHook]
        rfl
      · refine List.append_subset.2 ⟨?_, List.subset_append_right _ _⟩
        exact List.Subset.trans (Control.rest_afterHook_subset _ _ _)
          (List.subset_append_left _ _)
  | ending event outcome =>
    obtain rfl := Option.some.inj h
    exact .pushDone event rfl (List.Subset.refl _) rfl
  | returning outcome =>
    cases waiting with
    | nil => cases h
    | cons hook waiting =>
      obtain rfl := Option.some.inj h
      exact .quiet rfl (List.Subset.refl _) rfl

/-! ## Runs -/

/-- The moments of a machine's life: calls are made from outside one after the other, and each takes
its steps until it has come back. -/
inductive Reached (s : MachineSetup σ) : Config σ → Prop where
  /-- the first call is made to a new machine -/
  | first (memory : σ) (request : Request) : Reached s (.ofCall request { memory })
  /-- a further call is made when one has come back -/
  | again {c : Config σ} (h : Reached s c) {outcome : Outcome} (hcontrol : c.control = .returning outcome)
    (hwaiting : c.waiting = []) (request : Request) : Reached s (.ofCall request c.machine)
  /-- a call takes a step -/
  | step {c d : Config σ} (h : Reached s c) (hstep : s.step c = some d) : Reached s d

theorem Reached.leads {c d : Config σ} (hc : s.Reached c) (h : s.Leads c d) : s.Reached d := by
  induction h with
  | refl => exact hc
  | tail _ hstep ih => exact ih.step hstep

/-- Every moment is one of a call from outside. -/
theorem Reached.exists_call {c : Config σ} (hc : s.Reached c) :
    ∃ request m, s.Leads (.ofCall request m) c := by
  induction hc with
  | first memory request => exact ⟨request, { memory }, .refl⟩
  | @again c _ _ _ _ request _ => exact ⟨request, c.machine, .refl⟩
  | step _ hstep ih =>
    obtain ⟨request, m, hleads⟩ := ih
    exact ⟨request, m, hleads.tail hstep⟩

/-- Nothing comes after the end of a call from outside. -/
theorem step_ofRun (run : Run σ) : s.step (.ofRun run) = none := rfl

/-- Steps that lead away from a call are on the way to its answer. -/
theorem leads_ofRun {request : Request} {m : Machine σ} {c : Config σ}
    (h : s.Leads (.ofCall request m) c) : s.Leads c (.ofRun (s.perform request m)) := by
  have hunique : Relator.RightUnique fun c d : Config σ => s.step c = some d := by
    intro c d d' hd hd'
    exact Option.some.inj (hd.symm.trans hd')
  rcases Relation.ReflTransGen.total_of_right_unique hunique h (leads_perform request m) with
    hforth | hback
  · exact hforth
  · -- the answer is the last configuration, so that nothing else is behind it
    rcases Relation.ReflTransGen.cases_head hback with heq | ⟨d, hstep, _⟩
    · exact heq ▸ .refl
    · rw [step_ofRun] at hstep
      cases hstep

end MachineSetup

end Statechart
