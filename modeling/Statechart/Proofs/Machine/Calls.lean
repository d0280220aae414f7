import Statechart.Machine.Basic
set_option autoImplicit false

/-!
# Machines: calls and the calls inside them

What a call to a machine does does not depend on how deep it is nested: `perform_eq` states the
plain recursive equation, in which a call that is not refused is carried out by hooks whose own calls
are answered in the same way.  The reason is that a machine refuses every call while a push is in
progress (`Machine.Busy`), and every start once it has been started.
-/

namespace Statechart

variable {σ : Type}

/-! ## Reading a trace -/

/-- The hook call that an entry records. -/
def TraceEntry.hookCall? : TraceEntry → Option HookCall
  | .hook call _ => some call
  | .inner _ _ => none
  | .debug _ => none

/-- The event that an entry records as pushed by a hook. -/
def TraceEntry.pushed? : TraceEntry → Option String
  | .inner (.push event) _ => some event
  | .inner .start _ => none
  | .hook _ _ => none
  | .debug _ => none

/-- The hook calls of a trace, in order. -/
def hookCalls (trace : List TraceEntry) : List HookCall :=
  trace.filterMap (·.hookCall?)

/-- The events that hooks pushed, in order. -/
def pushedEvents (trace : List TraceEntry) : List String :=
  trace.filterMap (·.pushed?)

@[simp] theorem hookCalls_nil : hookCalls [] = [] := rfl

@[simp] theorem hookCalls_append (first second : List TraceEntry) :
    hookCalls (first ++ second) = hookCalls first ++ hookCalls second :=
  List.filterMap_append

@[simp] theorem hookCalls_hook (call : HookCall) (view : MachineView) (rest : List TraceEntry) :
    hookCalls (.hook call view :: rest) = call :: hookCalls rest := rfl

@[simp] theorem pushedEvents_nil : pushedEvents [] = [] := rfl

@[simp] theorem pushedEvents_append (first second : List TraceEntry) :
    pushedEvents (first ++ second) = pushedEvents first ++ pushedEvents second :=
  List.filterMap_append

@[simp] theorem pushedEvents_hook (call : HookCall) (view : MachineView)
    (rest : List TraceEntry) : pushedEvents (.hook call view :: rest) = pushedEvents rest := rfl

/-! ## Runs -/

namespace Run

@[simp] theorem answer_machine (m : Machine σ) (outcome : Outcome) :
    (answer m outcome).machine = m := rfl

@[simp] theorem answer_trace (m : Machine σ) (outcome : Outcome) :
    (answer m outcome).trace = [] := rfl

@[simp] theorem answer_outcome (m : Machine σ) (outcome : Outcome) :
    (answer m outcome).outcome = outcome := rfl

@[simp] theorem after_machine (r : Run σ) (entries : List TraceEntry) :
    (r.after entries).machine = r.machine := rfl

@[simp] theorem after_trace (r : Run σ) (entries : List TraceEntry) :
    (r.after entries).trace = entries ++ r.trace := rfl

@[simp] theorem after_outcome (r : Run σ) (entries : List TraceEntry) :
    (r.after entries).outcome = r.outcome := rfl

@[simp] theorem settle_trace (r : Run σ) : r.settle.trace = r.trace := by
  unfold settle
  split <;> rfl

@[simp] theorem settle_current (r : Run σ) :
    r.settle.machine.current? = r.machine.current? := by
  unfold settle
  split <;> rfl

@[simp] theorem settle_rejected (r : Run σ) : r.settle.machine.rejected? = none := by
  unfold settle
  split
  · rfl
  · assumption

theorem andThen_of_ok {r : Run σ} (h : r.outcome = .ok ()) (next : Machine σ → Run σ) :
    r.andThen next = (next r.machine).after r.trace := by
  unfold andThen
  rw [h]

theorem andThen_of_error {r : Run σ} {e : MachineError} (h : r.outcome = .error e)
    (next : Machine σ → Run σ) : r.andThen next = r := by
  unfold andThen
  rw [h]

end Run

/-! ## Calls during a push -/

/-- The error of a call that is made during a push. -/
def Request.refusal : Request → MachineError
  | .start => .alreadyStarted
  | .push event => .reentrant event

/-- What is recorded of a call that a hook makes during a push. -/
def Request.refused (request : Request) : TraceEntry :=
  .inner request (.error request.refusal)

/-- The event that a request pushes. -/
def Request.event? : Request → Option String
  | .start => none
  | .push event => some event

@[simp] theorem hookCalls_refused (requests : List Request) :
    hookCalls (requests.map Request.refused) = [] := by
  induction requests with
  | nil => rfl
  | cons request requests ih => exact ih

@[simp] theorem pushedEvents_refused (requests : List Request) :
    pushedEvents (requests.map Request.refused) = requests.filterMap Request.event? := by
  induction requests with
  | nil => rfl
  | cons request requests ih =>
    cases request with
    | start => exact ih
    | push event => exact congrArg (event :: ·) ih

namespace Machine

/-- A machine in which a push is in progress. -/
structure Busy (m : Machine σ) : Prop where
  started : m.lifecycle = .started
  pushing : m.pushing = true

/-- The machine after a refused call: the first push that was refused is remembered. -/
def noting (m : Machine σ) : Request → Machine σ
  | .start => m
  | .push event => { m with rejected? := m.rejected?.or (some event) }

theorem Busy.remember {m : Machine σ} (h : m.Busy) (memory : σ) : Busy { m with memory } :=
  ⟨h.started, h.pushing⟩

theorem Busy.noting {m : Machine σ} (h : m.Busy) (request : Request) : (m.noting request).Busy := by
  cases request with
  | start => exact h
  | push event => exact ⟨h.started, h.pushing⟩

end Machine

namespace MachineSetup

variable {s : MachineSetup σ}

/-- A busy machine refuses every call. -/
theorem refuse?_of_busy {m : Machine σ} (h : m.Busy) (request : Request) :
    refuse? request m = some (.answer (m.noting request) (.error request.refusal)) := by
  obtain ⟨hstarted, hpushing⟩ := h
  cases request with
  | start => simp only [refuse?, hstarted, Machine.noting, Request.refusal]
  | push event => simp [refuse?, hstarted, hpushing, Machine.noting, Request.refusal]

theorem performWithin_of_refuse? {request : Request} {m : Machine σ} {run : Run σ}
    (h : refuse? request m = some run) (depth : Nat) : s.performWithin depth request m = run := by
  cases depth with
  | zero => simp only [performWithin, h, Option.getD_some]
  | succ depth => simp only [performWithin, h]

theorem performWithin_of_busy {m : Machine σ} (h : m.Busy) (depth : Nat) (request : Request) :
    s.performWithin depth request m = .answer (m.noting request) (.error request.refusal) :=
  performWithin_of_refuse? (refuse?_of_busy h request) depth

theorem refuse?_start_eq_none_iff {m : Machine σ} :
    refuse? .start m = none ↔ m.lifecycle = .notStarted := by
  cases hl : m.lifecycle <;> simp [refuse?, hl]

theorem refuse?_start_of_started {m : Machine σ} (h : m.lifecycle = .started) :
    refuse? .start m = some (.answer m (.error .alreadyStarted)) := by
  simp only [refuse?, h]

theorem refuse?_push_eq_none_iff {event : String} {m : Machine σ} :
    refuse? (.push event) m = none ↔ m.lifecycle = .started ∧ m.pushing = false := by
  cases hl : m.lifecycle <;> cases hp : m.pushing <;> simp [refuse?, hl, hp]

/-- A call that is refused is answered at once, by an error. -/
theorem exists_answer_of_refuse? {request : Request} {m : Machine σ} {run : Run σ}
    (h : refuse? request m = some run) : ∃ m' e, run = .answer m' (.error e) := by
  cases request with
  | start =>
    cases hl : m.lifecycle with
    | notStarted => simp [refuse?, hl] at h
    | started =>
      rw [refuse?_start_of_started hl] at h
      exact ⟨_, _, (Option.some.inj h).symm⟩
  | push event =>
    cases hl : m.lifecycle with
    | notStarted =>
      simp only [refuse?, hl, Option.some.injEq] at h
      exact ⟨_, _, h.symm⟩
    | started =>
      cases hp : m.pushing with
      | false => simp [refuse?, hl, hp] at h
      | true =>
        rw [refuse?_of_busy ⟨hl, hp⟩] at h
        exact ⟨_, _, (Option.some.inj h).symm⟩

/-- A call that is refused while no push is in progress changes nothing. -/
theorem machine_of_refuse? {request : Request} {m : Machine σ} {run : Run σ}
    (h : refuse? request m = some run) (hpushing : m.pushing = false) : run.machine = m := by
  cases request with
  | start =>
    cases hl : m.lifecycle with
    | notStarted => simp [refuse?, hl] at h
    | started =>
      rw [refuse?_start_of_started hl] at h
      exact (Option.some.inj h) ▸ rfl
  | push event =>
    cases hl : m.lifecycle with
    | notStarted =>
      simp only [refuse?, hl, Option.some.injEq] at h
      exact h ▸ rfl
    | started => simp [refuse?, hl, hpushing] at h

theorem accept_push (perform : Request → Machine σ → Run σ) (event : String) (m : Machine σ) :
    s.accept perform (.push event) m =
      (s.dispatch perform event { m with pushing := true }).release := rfl

/-! ## A transition as a row of hook calls -/

end MachineSetup

/-- The hook calls of a transition that meets no failure. -/
def Transition.plan (t : Transition) : List HookCall :=
  t.actions.map .action ++ [.stateChange t.target]

/-- What the observer is told before a hook is called. -/
def HookCall.notification : HookCall → Notification
  | .action name => .action name
  | .stateChange id => .state id

namespace MachineSetup

variable {s : MachineSetup σ} {f g : Request → Machine σ → Run σ} {P : Machine σ → Prop}

/-- The machine as the hook finds it: a state has been entered before its hook is called. -/
def arrive (s : MachineSetup σ) (m : Machine σ) : HookCall → Machine σ
  | .action _ => m
  | .stateChange target => { m with current? := s.chart.position? target }

/-- One hook call of a transition. -/
def performHook (s : MachineSetup σ) (perform : Request → Machine σ → Run σ) (call : HookCall)
    (m : Machine σ) : Run σ :=
  (s.callHook perform call (s.arrive m call)).settle.after (s.notify call.notification)

/-- Hook calls of a transition, in order, up to the first that fails. -/
def performPlan (s : MachineSetup σ) (perform : Request → Machine σ → Run σ) :
    List HookCall → Machine σ → Run σ
  | [], m => .answer m (.ok ())
  | call :: rest, m => (s.performHook perform call m).andThen (s.performPlan perform rest)

/-- Performing actions and then entering the target is one row of hook calls. -/
theorem performPlan_actions (perform : Request → Machine σ → Run σ) (actions : List String)
    (target : String) (m : Machine σ) :
    (s.performActions perform actions m).andThen (s.enter perform target) =
      s.performPlan perform (actions.map .action ++ [.stateChange target]) m := by
  induction actions generalizing m with
  | nil =>
    have hlast : s.performPlan perform [.stateChange target] m = s.enter perform target m := by
      unfold performPlan
      cases hout : (s.performHook perform (.stateChange target) m).outcome with
      | error e => exact Run.andThen_of_error hout _
      | ok =>
        rw [Run.andThen_of_ok hout]
        unfold performPlan Run.after Run.answer
        rw [List.append_nil, ← hout]
        rfl
    exact hlast.symm
  | cons action rest ih =>
    have hhead : s.performAction perform action m = s.performHook perform (.action action) m := rfl
    simp only [performActions, List.map_cons, List.cons_append, performPlan, ← hhead]
    cases hout : (s.performAction perform action m).outcome with
    | error e =>
      rw [Run.andThen_of_error hout, Run.andThen_of_error hout, Run.andThen_of_error hout]
    | ok =>
      rw [Run.andThen_of_ok hout, Run.andThen_of_ok hout, ← ih]
      cases hrest : (s.performActions perform rest
          (s.performAction perform action m).machine).outcome with
      | error e => rw [Run.andThen_of_error hrest, Run.andThen_of_error (by exact hrest)]
      | ok =>
        rw [Run.andThen_of_ok hrest, Run.andThen_of_ok (by exact hrest)]
        simp [Run.after]

theorem take_eq (perform : Request → Machine σ → Run σ) (event : String) (t : Transition)
    (m : Machine σ) :
    s.take perform event t m =
      (s.performPlan perform t.plan m).after (s.notify (.event event)) := by
  unfold take
  rw [performPlan_actions, Transition.plan]

/-! ## What hooks keep and what they depend on -/

/-- A property of machines that neither the memory of the hooks nor a call can destroy. -/
structure Kept (perform : Request → Machine σ → Run σ) (P : Machine σ → Prop) : Prop where
  remember : ∀ (m : Machine σ) (memory : σ), P m → P { m with memory }
  call : ∀ (request : Request) (m : Machine σ), P m → P (perform request m).machine

theorem Kept.runScript (hP : Kept f P) {m : Machine σ} (hm : P m) (script : Script σ) :
    P (s.runScript f m script).machine := by
  induction script generalizing m with
  | finish memory outcome => exact hP.remember m memory hm
  | call memory request next ih => exact ih _ _ _ (hP.call request _ (hP.remember m memory hm))

theorem Kept.callHook (hP : Kept f P) {m : Machine σ} (hm : P m) (call : HookCall) :
    P (s.callHook f call m).machine :=
  hP.runScript hm _

/-- Two ways of answering calls that agree on the machines that a hook can find are the same to the
hook. -/
theorem Kept.runScript_congr (hP : Kept f P) (hfg : ∀ request m, P m → f request m = g request m)
    {m : Machine σ} (hm : P m) (script : Script σ) :
    s.runScript f m script = s.runScript g m script := by
  induction script generalizing m with
  | finish memory outcome => rfl
  | call memory request next ih =>
    have hmem : P { m with memory } := hP.remember m memory hm
    unfold MachineSetup.runScript
    rw [← hfg request _ hmem]
    simp only
    rw [ih _ _ _ (hP.call request _ hmem)]

theorem Kept.callHook_congr (hP : Kept f P) (hfg : ∀ request m, P m → f request m = g request m)
    {m : Machine σ} (hm : P m) (call : HookCall) : s.callHook f call m = s.callHook g call m := by
  unfold MachineSetup.callHook
  rw [hP.runScript_congr hfg hm]

/-! ## A push does not depend on the depth -/

theorem kept_busy (s : MachineSetup σ) (depth : Nat) :
    Kept (s.performWithin depth) Machine.Busy where
  remember _ memory h := h.remember memory
  call request m h := by
    rw [performWithin_of_busy h]
    exact h.noting request

theorem busy_arrive {m : Machine σ} (h : m.Busy) (call : HookCall) : (s.arrive m call).Busy := by
  cases call with
  | action name => exact h
  | stateChange target => exact ⟨h.started, h.pushing⟩

theorem busy_settle {r : Run σ} (h : r.machine.Busy) : r.settle.machine.Busy := by
  unfold Run.settle
  split
  · exact ⟨h.started, h.pushing⟩
  · exact h

theorem busy_performHook (hP : Kept f Machine.Busy) {m : Machine σ} (hm : m.Busy)
    (call : HookCall) : (s.performHook f call m).machine.Busy :=
  busy_settle (hP.callHook (busy_arrive hm call) call)

theorem busy_performPlan (hP : Kept f Machine.Busy) {m : Machine σ} (hm : m.Busy)
    (calls : List HookCall) : (s.performPlan f calls m).machine.Busy := by
  induction calls generalizing m with
  | nil => exact hm
  | cons call rest ih =>
    have hbusy := busy_performHook (s := s) hP hm call
    unfold performPlan
    cases hout : (s.performHook f call m).outcome with
    | error e =>
      rw [Run.andThen_of_error hout]
      exact hbusy
    | ok =>
      rw [Run.andThen_of_ok hout]
      exact ih hbusy

theorem performPlan_congr (hP : Kept f Machine.Busy)
    (hfg : ∀ request m, m.Busy → f request m = g request m) {m : Machine σ} (hm : m.Busy)
    (calls : List HookCall) : s.performPlan f calls m = s.performPlan g calls m := by
  induction calls generalizing m with
  | nil => rfl
  | cons call rest ih =>
    have hhook : s.performHook f call m = s.performHook g call m := by
      unfold performHook
      rw [hP.callHook_congr hfg (busy_arrive hm call)]
    unfold performPlan
    rw [← hhook]
    cases hout : (s.performHook f call m).outcome with
    | error e => rw [Run.andThen_of_error hout, Run.andThen_of_error hout]
    | ok =>
      rw [Run.andThen_of_ok hout, Run.andThen_of_ok hout, ih (busy_performHook hP hm call)]

theorem accept_push_congr (hP : Kept f Machine.Busy)
    (hfg : ∀ request m, m.Busy → f request m = g request m) {m : Machine σ}
    (hm : m.lifecycle = .started) (event : String) :
    s.accept f (.push event) m = s.accept g (.push event) m := by
  have hbusy : Machine.Busy { m with pushing := true } := ⟨hm, rfl⟩
  have htake : ∀ t, s.take f event t { m with pushing := true } =
      s.take g event t { m with pushing := true } := by
    intro t
    rw [take_eq, take_eq, performPlan_congr hP hfg hbusy]
  simp only [accept_push, dispatch, htake]

/-! ## Starting does not depend on the depth -/

theorem lifecycle_accept_push (hP : Kept f Machine.Busy) {m : Machine σ}
    (hm : m.lifecycle = .started) (event : String) :
    (s.accept f (.push event) m).machine.lifecycle = .started := by
  have hbusy : Machine.Busy { m with pushing := true } := ⟨hm, rfl⟩
  simp only [accept_push, Run.release, dispatch]
  split
  · exact hm
  · split
    · exact hm
    · split
      · exact hm
      · rw [take_eq]
        exact (busy_performPlan hP hbusy _).started

theorem kept_started (s : MachineSetup σ) (depth : Nat) :
    Kept (s.performWithin (depth + 1)) fun m => m.lifecycle = .started where
  remember _ _ h := h
  call request m h := by
    cases request with
    | start =>
      rw [performWithin_of_refuse? (refuse?_start_of_started h)]
      exact h
    | push event =>
      by_cases hpushing : m.pushing = true
      · rw [performWithin_of_busy ⟨h, hpushing⟩]
        exact ((Machine.Busy.mk h hpushing).noting _).started
      · have hnone : refuse? (.push event) m = none :=
          refuse?_push_eq_none_iff.2 ⟨h, Bool.eq_false_iff.2 hpushing⟩
        simp only [performWithin, hnone]
        exact lifecycle_accept_push (kept_busy s depth) h event

/-- On a started machine one level is enough. -/
theorem performWithin_of_started {m : Machine σ} (h : m.lifecycle = .started)
    (depth depth' : Nat) (request : Request) :
    s.performWithin (depth + 1) request m = s.performWithin (depth' + 1) request m := by
  cases hrefuse : refuse? request m with
  | some run => rw [performWithin_of_refuse? hrefuse, performWithin_of_refuse? hrefuse]
  | none =>
    cases request with
    | start =>
      rw [refuse?_start_of_started h] at hrefuse
      cases hrefuse
    | push event =>
      simp only [performWithin, hrefuse]
      refine accept_push_congr (kept_busy s depth) ?_ h event
      intro request m hm
      rw [performWithin_of_busy hm, performWithin_of_busy hm]

/-- Two levels are enough for every call. -/
theorem performWithin_eq_perform (depth : Nat) (request : Request) (m : Machine σ) :
    s.performWithin (depth + 2) request m = s.perform request m := by
  cases hrefuse : refuse? request m with
  | some run => rw [perform, performWithin_of_refuse? hrefuse, performWithin_of_refuse? hrefuse]
  | none =>
    cases request with
    | start =>
      simp only [perform, performWithin, hrefuse, accept]
      exact (kept_started s depth).callHook_congr
        (fun request m hm => performWithin_of_started hm depth 0 request) rfl _
    | push event =>
      obtain ⟨hstarted, _⟩ := refuse?_push_eq_none_iff.1 hrefuse
      exact performWithin_of_started hstarted (depth + 1) 1 (.push event)

/-- **Calls.**  A call is refused or carried out, and the calls that hooks make on the way are
answered in the same way. -/
theorem perform_eq (request : Request) (m : Machine σ) :
    s.perform request m = (refuse? request m).getD (s.accept s.perform request m) := by
  rw [← performWithin_eq_perform 1 request m]
  cases hrefuse : refuse? request m with
  | some run => rw [performWithin_of_refuse? hrefuse, Option.getD_some]
  | none =>
    rw [Option.getD_none]
    simp only [performWithin, hrefuse]
    rfl

theorem perform_of_refuse? {request : Request} {m : Machine σ} {run : Run σ}
    (h : refuse? request m = some run) : s.perform request m = run := by
  rw [perform_eq, h, Option.getD_some]

theorem perform_of_accept {request : Request} {m : Machine σ} (h : refuse? request m = none) :
    s.perform request m = s.accept s.perform request m := by
  rw [perform_eq, h, Option.getD_none]

theorem perform_of_busy {m : Machine σ} (h : m.Busy) (request : Request) :
    s.perform request m = .answer (m.noting request) (.error request.refusal) :=
  perform_of_refuse? (refuse?_of_busy h request)

end MachineSetup

end Statechart
