import Statechart.Proofs.Graph.Cycles
import Statechart.Proofs.Machine.Lifetime
set_option autoImplicit false

/-!
# Machines of charts without cycles run down

Without a base state every push that enters a state goes one step along a transition of the state
that is left.  So the states that are entered over a life are a walk through the chart from the
initial state, hooks that push during the start included (`descends_script`, `descends_life`).  If
the chart has no cycle, the walk ends before the states do.
-/

namespace Statechart

variable {σ : Type}

/-! ## States that are entered -/

/-- The state that has been entered when a hook is called. -/
def HookCall.entered? : HookCall → Option String
  | .action _ => none
  | .stateChange id => some id

/-- The states that are entered over a trace, in order. -/
def enteredStates (trace : List TraceEntry) : List String :=
  (hookCalls trace).filterMap HookCall.entered?

@[simp] theorem enteredStates_nil : enteredStates [] = [] := rfl

@[simp] theorem enteredStates_append (first second : List TraceEntry) :
    enteredStates (first ++ second) = enteredStates first ++ enteredStates second := by
  simp [enteredStates]

@[simp] theorem enteredStates_inner (request : Request) (outcome : Outcome) :
    enteredStates [.inner request outcome] = [] := rfl

/-- Some of the hook calls of a transition enter the target or nothing. -/
theorem entered_of_prefix_plan {t : Transition} {calls : List HookCall} (h : calls <+: t.plan) :
    calls.filterMap HookCall.entered? =
      if .stateChange t.target ∈ calls then [t.target] else [] := by
  have hactions : ∀ calls : List HookCall, calls ⊆ t.actions.map .action →
      calls.filterMap HookCall.entered? = [] := by
    intro calls hsubset
    refine List.filterMap_eq_nil_iff.2 fun call hcall => ?_
    obtain ⟨name, _, rfl⟩ := List.mem_map.1 (hsubset hcall)
    rfl
  rcases List.prefix_concat_iff.1 h with rfl | hfront
  · rw [if_pos (by simp), List.filterMap_append, hactions _ (List.Subset.refl _)]
    rfl
  · have hnot : .stateChange t.target ∉ calls := by
      intro hmem
      obtain ⟨_, _, heq⟩ := List.mem_map.1 (hfront.subset hmem)
      cases heq
    rw [if_neg hnot, hactions _ hfront.subset]

/-! ## Calls, calls of hooks, and so on -/

namespace MachineSetup

/-- The calls that the program of a hook makes, each with the machine that it is made to. -/
def scriptCalls (s : MachineSetup σ) : Machine σ → Script σ → List (LifeCall σ)
  | _, .finish _ _ => []
  | m, .call memory request next =>
    let inner := s.perform request { m with memory }
    ⟨request, { m with memory }⟩ ::
      scriptCalls s inner.machine (next inner.machine.memory inner.outcome (s.view inner.machine))

/-- What is recorded over a life. -/
def lifeTrace (s : MachineSetup σ) (m : Machine σ) (requests : List Request) : List TraceEntry :=
  (s.life m requests).flatMap fun c => (c.run s).trace

end MachineSetup

/-- The calls that a hook makes. -/
def HookStep.calls (s : MachineSetup σ) (h : HookStep σ) : List (LifeCall σ) :=
  s.scriptCalls h.found (s.hooks.respond h.found.memory (s.view h.found) h.call)

namespace LifeCall

/-- The hook calls that a call makes itself, each with the machine that the hook finds. -/
def steps (s : MachineSetup σ) (c : LifeCall σ) : List (HookStep σ) :=
  match MachineSetup.refuse? c.request c.before, c.request with
  | some _, _ => []
  | none, .start =>
    [⟨.stateChange s.chart.initial,
      { c.before with lifecycle := .started, current? := s.chart.position? s.chart.initial }⟩]
  | none, .push event => s.pushSteps event c.before

/-- The states that a call enters itself. -/
def entered (s : MachineSetup σ) (c : LifeCall σ) : List String :=
  (c.steps s).filterMap (·.call.entered?)

/-- A call, the calls that its hooks make, the calls that the hooks of those make, and so on to some
depth. -/
def within (s : MachineSetup σ) : Nat → LifeCall σ → List (LifeCall σ)
  | 0, c => [c]
  | depth + 1, c => c :: ((c.steps s).flatMap (·.calls s)).flatMap (within s depth)

/-- The call is a push that enters a state. -/
def advances (s : MachineSetup σ) (c : LifeCall σ) : Bool :=
  c.request ≠ .start && !(c.entered s).isEmpty

/-- The call is a push that succeeds. -/
def succeeds (s : MachineSetup σ) (c : LifeCall σ) : Bool :=
  c.request ≠ .start && (c.run s).outcome.isOk

variable {s : MachineSetup σ} {c : LifeCall σ}

theorem steps_of_refuse? {run : Run σ} (h : MachineSetup.refuse? c.request c.before = some run) :
    c.steps s = [] := by
  unfold steps
  rw [h]

theorem steps_start {m : Machine σ} (h : MachineSetup.refuse? .start m = none) :
    steps s ⟨.start, m⟩ = [⟨.stateChange s.chart.initial,
      { m with lifecycle := .started, current? := s.chart.position? s.chart.initial }⟩] := by
  unfold steps
  rw [h]

theorem steps_push {event : String} {m : Machine σ}
    (h : MachineSetup.refuse? (.push event) m = none) :
    steps s ⟨.push event, m⟩ = s.pushSteps event m := by
  unfold steps
  rw [h]

theorem within_of_steps_eq_nil (h : c.steps s = []) (depth : Nat) : c.within s depth = [c] := by
  cases depth with
  | zero => rfl
  | succ depth =>
    unfold within
    rw [h]
    rfl

theorem advances_of_steps_eq_nil (h : c.steps s = []) : c.advances s = false := by
  simp [advances, entered, h]

theorem advances_start (m : Machine σ) : advances s ⟨.start, m⟩ = false := by
  simp [advances]

/-- What a push enters is what is recorded of it. -/
theorem entered_push {event : String} {m : Machine σ}
    (h : MachineSetup.refuse? (.push event) m = none) :
    entered s ⟨.push event, m⟩ = enteredStates (s.perform (.push event) m).trace := by
  have hcalls : (s.pushSteps event m).map (·.call) =
      hookCalls (s.perform (.push event) m).trace := MachineSetup.map_call_replay _ _
  unfold entered enteredStates
  rw [steps_push h, ← hcalls, List.filterMap_map]
  rfl

end LifeCall

namespace MachineSetup

variable {s : MachineSetup σ}

/-- During a push hooks call a busy machine. -/
theorem busy_of_mem_scriptCalls {m : Machine σ} (hm : m.Busy) (script : Script σ) :
    ∀ c ∈ s.scriptCalls m script, c.before.Busy := by
  induction script generalizing m with
  | finish memory outcome => exact fun c hc => absurd hc List.not_mem_nil
  | call memory request next ih =>
    have hbusy : Machine.Busy { m with memory } := hm.remember memory
    intro c hc
    rcases List.mem_cons.1 hc with rfl | hc
    · exact hbusy
    · refine ih _ _ _ ?_ c hc
      rw [perform_of_busy hbusy]
      exact hbusy.noting request

/-- Calls to a busy machine come to nothing, at any depth. -/
theorem countP_within_of_busy {calls : List (LifeCall σ)} (h : ∀ c ∈ calls, c.before.Busy)
    (depth : Nat) : (calls.flatMap (·.within s depth)).countP (·.advances s) = 0 := by
  refine List.countP_eq_zero.2 fun d hd => ?_
  obtain ⟨c, hc, hmem⟩ := List.mem_flatMap.1 hd
  have hsteps : c.steps s = [] := LifeCall.steps_of_refuse? (refuse?_of_busy (h c hc) c.request)
  rw [LifeCall.within_of_steps_eq_nil hsteps, List.mem_singleton] at hmem
  rw [hmem, LifeCall.advances_of_steps_eq_nil hsteps]
  exact Bool.false_ne_true

/-! ## Descents -/

/-- The calls lead from the source to the target and enter these states on the way: the states are a
walk through the chart, and no more pushes enter a state than there are states on the walk, those
that hooks make included. -/
structure Descends (s : MachineSetup σ) (source : String) (calls : List (LifeCall σ))
    (states : List String) (target : String) : Prop where
  walk : s.chart.Walk source states target
  advancing : ∀ depth,
    (calls.flatMap (·.within s depth)).countP (·.advances s) ≤ states.length

theorem Descends.append {source middle target : String} {calls more : List (LifeCall σ)}
    {states further : List String} (h : s.Descends source calls states middle)
    (h' : s.Descends middle more further target) :
    s.Descends source (calls ++ more) (states ++ further) target := by
  refine ⟨h.walk.trans h'.walk, fun depth => ?_⟩
  rw [List.flatMap_append, List.countP_append, List.length_append]
  exact Nat.add_le_add (h.advancing depth) (h'.advancing depth)

/-- Calls that come to nothing stay where they are. -/
theorem descends_of_refuse? {request : Request} {m : Machine σ} {run : Run σ}
    (h : refuse? request m = some run) (source : String) :
    s.Descends source [⟨request, m⟩] [] source := by
  refine ⟨.stay source, fun depth => ?_⟩
  have hsteps : LifeCall.steps s ⟨request, m⟩ = [] := LifeCall.steps_of_refuse? h
  simp [LifeCall.within_of_steps_eq_nil hsteps, LifeCall.advances_of_steps_eq_nil hsteps]

section Idle

variable (hc : s.chart.WellFormed) (hbase : s.chart.baseState? = none)

include hbase in
/-- Without a base state events resolve to steps. -/
theorem step_of_resolve {m : Machine σ} {source event : String} {t : Transition}
    (hc : s.chart.WellFormed) (hstate : s.currentName? m = some source)
    (ht : s.chart.resolve source event = some t) : s.chart.Step source t.target := by
  obtain ⟨_, _, hname⟩ := Option.bind_eq_some_iff.1 hstate
  obtain ⟨state, hposition, rfl⟩ := Option.map_eq_some_iff.1 hname
  have hmem := List.mem_of_getElem? hposition
  rcases hc.openTo_of_resolve hmem ht with hown | ⟨base, hsome, _⟩
  · exact ⟨state, hmem, rfl, t, hown, rfl⟩
  · rw [hbase] at hsome
    cases hsome

include hc hbase

/-- What a push enters is the way to where it leaves the machine. -/
theorem walk_push {m : Machine σ} (hm : m.Idle s.chart) {source : String}
    (hstate : s.currentName? m = some source) (event : String) :
    ∃ target, s.currentName? (s.perform (.push event) m).machine = some target ∧
      s.chart.Walk source (enteredStates (s.perform (.push event) m).trace) target := by
  cases ht : s.chart.resolve source event with
  | none =>
    have hnone : (s.currentName? m).bind (s.chart.resolve · event) = none := by
      rw [hstate]
      exact ht
    rw [perform_push_of_unresolved (hm.accepts event) hm.rejected hnone]
    exact ⟨source, hstate, .stay source⟩
  | some t =>
    have hexec := executes_of_idle hc hm hstate ht
    have hentered := entered_of_prefix_plan hexec.isPrefix
    have hmoved := hexec.moved
    rw [← hexec.calls] at hentered hmoved
    rw [enteredStates, hentered]
    by_cases hin : .stateChange t.target ∈ hookCalls (s.perform (.push event) m).trace
    · rw [if_pos hin] at hmoved ⊢
      exact ⟨t.target, hmoved, .single (step_of_resolve hbase hc hstate ht)⟩
    · rw [if_neg hin] at hmoved ⊢
      exact ⟨source, hmoved, .stay source⟩

omit hbase in
/-- A push is the only push to count among itself and the calls of its hooks. -/
theorem countP_within_push {m : Machine σ} (hm : m.Idle s.chart) (event : String) (depth : Nat) :
    (LifeCall.within s depth ⟨.push event, m⟩).countP (·.advances s) ≤
      (enteredStates (s.perform (.push event) m).trace).length := by
  have haccept := hm.accepts event
  have hself : [(⟨.push event, m⟩ : LifeCall σ)].countP (·.advances s) ≤
      (enteredStates (s.perform (.push event) m).trace).length := by
    rw [List.countP_singleton, ← LifeCall.entered_push haccept]
    cases hentered : LifeCall.entered s ⟨.push event, m⟩ with
    | nil => simp [LifeCall.advances, hentered]
    | cons state states => split <;> simp
  cases depth with
  | zero => exact hself
  | succ depth =>
    have hbusy : ∀ c ∈ (s.pushSteps event m).flatMap (·.calls s), c.before.Busy := by
      intro c hmem
      obtain ⟨step, hstep, hcall⟩ := List.mem_flatMap.1 hmem
      exact busy_of_mem_scriptCalls ((idle_push hc hm event).2 step hstep).1.toBusy _ c hcall
    have hzero := countP_within_of_busy (s := s) hbusy depth
    rw [LifeCall.within, LifeCall.steps_push haccept, ← List.singleton_append,
      List.countP_append, hzero]
    exact hself

/-- **One call** to an idle machine goes down from its state. -/
theorem descends_call {m : Machine σ} (hm : m.Idle s.chart) {source : String}
    (hstate : s.currentName? m = some source) (request : Request) :
    ∃ target, s.currentName? (s.perform request m).machine = some target ∧
      s.Descends source [⟨request, m⟩] (enteredStates (s.perform request m).trace) target := by
  cases request with
  | start =>
    have hrefuse := refuse?_start_of_started hm.started
    rw [perform_of_refuse? hrefuse]
    exact ⟨source, hstate, descends_of_refuse? hrefuse source⟩
  | push event =>
    obtain ⟨target, htarget, hwalk⟩ := walk_push hc hbase hm hstate event
    refine ⟨target, htarget, hwalk, fun depth => ?_⟩
    rw [List.flatMap_singleton]
    exact countP_within_push hc hm event depth

/-- **The program of a hook** that finds an idle machine goes down from its state. -/
theorem descends_script {m : Machine σ} (hm : m.Idle s.chart) {source : String}
    (hstate : s.currentName? m = some source) (script : Script σ) :
    ∃ target, s.currentName? (s.runScript s.perform m script).machine = some target ∧
      s.Descends source (s.scriptCalls m script)
        (enteredStates (s.runScript s.perform m script).trace) target := by
  induction script generalizing m source with
  | finish memory outcome => exact ⟨source, hstate, .stay source, fun depth => Nat.le_refl 0⟩
  | call memory request next ih =>
    have hkept := kept_idle hc
    have hidle : Machine.Idle s.chart { m with memory } := hkept.remember m memory hm
    obtain ⟨middle, hmiddle, hcall⟩ := descends_call hc hbase hidle hstate request
    obtain ⟨target, htarget, hrest⟩ := ih
      (s.perform request { m with memory }).machine.memory
      (s.perform request { m with memory }).outcome
      (s.view (s.perform request { m with memory }).machine)
      (hkept.call request _ hidle) hmiddle
    refine ⟨target, htarget, ?_⟩
    unfold runScript scriptCalls
    rw [Run.after_trace, enteredStates_append, enteredStates_append, enteredStates_inner,
      List.append_nil]
    exact hcall.append hrest

/-- **A life** that begins idle goes down from the state it begins in. -/
theorem descends_life {m : Machine σ} (hm : m.Idle s.chart) {source : String}
    (hstate : s.currentName? m = some source) (requests : List Request) :
    ∃ target, s.Descends source (s.life m requests) (enteredStates (s.lifeTrace m requests))
      target := by
  induction requests generalizing m source with
  | nil => exact ⟨source, .stay source, fun depth => Nat.le_refl 0⟩
  | cons request rest ih =>
    obtain ⟨middle, hmiddle, hcall⟩ := descends_call hc hbase hm hstate request
    obtain ⟨target, hrest⟩ := ih ((kept_idle hc).call request m hm) hmiddle
    refine ⟨target, ?_⟩
    unfold lifeTrace life
    rw [List.flatMap_cons, enteredStates_append]
    exact hcall.append hrest

/-- A start that is carried out enters the initial state, and its hook goes down from there. -/
theorem descends_start {m : Machine σ} (hm : m.Settled) (haccept : refuse? .start m = none) :
    ∃ states target,
      enteredStates (s.perform .start m).trace = s.chart.initial :: states ∧
      s.currentName? (s.perform .start m).machine = some target ∧
      s.Descends s.chart.initial [⟨.start, m⟩] states target := by
  have hidle := idle_starting hc hm
  have hstate : s.currentName?
      { m with lifecycle := .started, current? := s.chart.position? s.chart.initial } =
        some s.chart.initial := currentName?_of_position hc.initial_mem rfl
  rw [perform_start_of_accept haccept]
  obtain ⟨target, htarget, hscript⟩ := descends_script hc hbase hidle hstate
    (s.hooks.respond m.memory
      (s.view { m with lifecycle := .started, current? := s.chart.position? s.chart.initial })
      (.stateChange s.chart.initial))
  refine ⟨_, target, rfl, htarget, hscript.walk, fun depth => ?_⟩
  rw [List.flatMap_singleton]
  cases depth with
  | zero => simp [LifeCall.within, LifeCall.advances_start]
  | succ depth =>
    rw [LifeCall.within, LifeCall.steps_start haccept, List.flatMap_singleton,
      List.countP_cons_of_neg (by simp [LifeCall.advances_start])]
    exact hscript.advancing depth

end Idle

/-! ## Lives that begin unstarted -/

/-- Until the start nothing is entered; from then on it goes down from the initial state. -/
theorem descends_of_unstarted (hc : s.chart.WellFormed) (hbase : s.chart.baseState? = none)
    {m : Machine σ} (hm : m.Settled) (hnot : m.lifecycle = .notStarted)
    (requests : List Request) :
    ∃ states target, s.Descends s.chart.initial (s.life m requests) states target ∧
      (enteredStates (s.lifeTrace m requests) = [] ∨
        enteredStates (s.lifeTrace m requests) = s.chart.initial :: states) := by
  induction requests with
  | nil => exact ⟨[], s.chart.initial, ⟨.stay _, fun depth => Nat.le_refl 0⟩, .inl rfl⟩
  | cons request rest ih =>
    unfold lifeTrace life
    rw [List.flatMap_cons, enteredStates_append]
    cases request with
    | start =>
      have haccept := refuse?_start_eq_none_iff.2 hnot
      obtain ⟨first, middle, hfirst, hmiddle, hstart⟩ := descends_start hc hbase hm haccept
      obtain ⟨target, hrest⟩ := descends_life hc hbase (idle_start hc haccept hm) hmiddle rest
      refine ⟨_, target, hstart.append hrest, .inr ?_⟩
      exact congrArg (· ++ _) hfirst
    | push event =>
      have hrefuse : refuse? (.push event) m = some (.answer m (.error .notStarted)) := by
        simp [refuse?, hnot]
      have hrun : s.perform (.push event) m = .answer m (.error .notStarted) :=
        perform_of_refuse? hrefuse
      obtain ⟨states, target, hrest, hentered⟩ := ih
      refine ⟨states, target, ?_, ?_⟩
      · rw [hrun]
        exact (descends_of_refuse? hrefuse _).append hrest
      · rw [LifeCall.run, hrun]
        exact hentered

/-! ## Pushes that succeed -/

/-- Hooks have control at moments, and so have those that they call. -/
theorem moment_of_mem_scriptCalls {request : Request} {stack : List Request} {m : Machine σ}
    (hm : s.Moment (request :: stack) m) (script : Script σ) :
    ∀ c ∈ s.scriptCalls m script, s.Moment (request :: stack) c.before := by
  induction script generalizing m with
  | finish memory outcome => exact fun c hc => absurd hc List.not_mem_nil
  | call memory inner next ih =>
    intro c hc
    rcases List.mem_cons.1 hc with rfl | hc
    · exact hm.remembered memory
    · exact ih _ _ _ ((hm.remembered memory).returned inner) c hc

/-- The hooks of a call find the machine at moments. -/
theorem moment_of_mem_steps {c : LifeCall σ} {stack : List Request} (hm : s.Moment stack c.before)
    {step : HookStep σ} (hstep : step ∈ c.steps s) :
    s.Moment (c.request :: stack) step.found := by
  obtain ⟨request, m⟩ := c
  cases hrefuse : refuse? request m with
  | some run =>
    rw [LifeCall.steps_of_refuse? hrefuse] at hstep
    exact absurd hstep List.not_mem_nil
  | none =>
    cases request with
    | start =>
      rw [LifeCall.steps_start hrefuse, List.mem_singleton] at hstep
      exact hstep ▸ hm.starting hrefuse
    | push event =>
      rw [LifeCall.steps_push hrefuse] at hstep
      exact hm.pushing hrefuse hstep

theorem exists_moment_of_mem_within {c : LifeCall σ} {stack : List Request}
    (hm : s.Moment stack c.before) (depth : Nat) :
    ∀ d ∈ c.within s depth, ∃ stack, s.Moment stack d.before := by
  induction depth generalizing c stack with
  | zero =>
    intro d hd
    obtain rfl := List.mem_singleton.1 hd
    exact ⟨stack, hm⟩
  | succ depth ih =>
    intro d hd
    rcases List.mem_cons.1 hd with rfl | hd
    · exact ⟨stack, hm⟩
    · obtain ⟨inner, hinner, hd⟩ := List.mem_flatMap.1 hd
      obtain ⟨step, hstep, hcall⟩ := List.mem_flatMap.1 hinner
      exact ih (moment_of_mem_scriptCalls (moment_of_mem_steps hm hstep) _ inner hcall) d hd

/-- A push that succeeds enters a state. -/
theorem advances_of_succeeds (hc : s.chart.WellFormed) {c : LifeCall σ} {stack : List Request}
    (hm : s.Moment stack c.before) (h : c.succeeds s = true) : c.advances s = true := by
  obtain ⟨request, m⟩ := c
  obtain ⟨hpush, hok⟩ := Bool.and_eq_true_iff.1 h
  cases request with
  | start => simp at hpush
  | push event =>
    refine Bool.and_eq_true_iff.2 ⟨hpush, ?_⟩
    cases hrefuse : refuse? (.push event) m with
    | some run =>
      obtain ⟨_, _, rfl⟩ := exists_answer_of_refuse? hrefuse
      rw [LifeCall.run, perform_of_refuse? hrefuse] at hok
      cases hok
    | none =>
      have hidle := (hm.consistent hc).idle hrefuse
      obtain ⟨state, hstate⟩ := hidle.toPlaced.exists_name hidle.started
      cases ht : s.chart.resolve state event with
      | none =>
        have hnone : (s.currentName? m).bind (s.chart.resolve · event) = none := by
          rw [hstate]
          exact ht
        rw [LifeCall.run, perform_push_of_unresolved hrefuse hidle.rejected hnone] at hok
        cases hok
      | some t =>
        -- all hooks of the transition were called, that of the target among them
        have hexec := executes_of_idle hc hidle hstate ht
        have houtcome : (s.perform (.push event) m).outcome = .ok () := by
          cases hout : (s.perform (.push event) m).outcome with
          | ok => rfl
          | error e =>
            rw [LifeCall.run, hout] at hok
            cases hok
        have hentered := entered_of_prefix_plan hexec.isPrefix
        rw [(hexec.succeeds.1 houtcome).1, if_pos (by simp [Transition.plan]),
          ← (hexec.succeeds.1 houtcome).1, List.filterMap_map] at hentered
        have hsteps : LifeCall.entered s ⟨.push event, m⟩ = [t.target] := by
          rw [LifeCall.entered, LifeCall.steps_push hrefuse]
          exact hentered
        rw [hsteps]
        rfl

/-! ## Running down -/

/-- **Machines of charts without cycles run down**, for arbitrary hooks and any calls.  Without a
base state and without a cycle no state is entered twice over a whole life.  So over a whole life
fewer pushes enter a state than the chart has states, and fewer pushes succeed; pushes that hooks
make count, at whatever depth. -/
theorem runs_down (hd : s.chart.IsDocument) (hbase : s.chart.baseState? = none)
    (hcycles : (Graph.ofChart s.chart).hasCycles = false) (memory : σ) (requests : List Request) :
    (enteredStates (s.lifeTrace { memory } requests)).Nodup ∧
    ∀ depth,
      ((s.life { memory } requests).flatMap (·.within s depth)).countP (·.advances s) ≤
        (Graph.ofChart s.chart).stats.states - 1 ∧
      ((s.life { memory } requests).flatMap (·.within s depth)).countP (·.succeeds s) ≤
        (Graph.ofChart s.chart).stats.states - 1 := by
  have hc := hd.wellFormed
  obtain ⟨states, target, hdescends, hentered⟩ :=
    descends_of_unstarted hc hbase (m := { memory }) ⟨rfl, rfl⟩ rfl requests
  refine ⟨?_, fun depth => ?_⟩
  · rcases hentered with hnone | hsome
    · rw [hnone]
      exact List.nodup_nil
    · rw [hsome]
      exact hdescends.walk.nodup hc hcycles
  · have hlength := hdescends.walk.length_lt hc hcycles hc.initial_mem
    have hadvancing := hdescends.advancing depth
    have hsucceeding :
        ((s.life { memory } requests).flatMap (·.within s depth)).countP (·.succeeds s) ≤
          ((s.life { memory } requests).flatMap (·.within s depth)).countP (·.advances s) := by
      refine List.countP_mono_left fun d hd hok => ?_
      obtain ⟨c, hc', hmem⟩ := List.mem_flatMap.1 hd
      obtain ⟨stack, hmoment⟩ := exists_moment_of_mem_within
        (moment_of_mem_life (Moment.created memory) hc') depth d hmem
      exact advances_of_succeeds hc hmoment hok
    omega

end MachineSetup

/-! ## An example: a rocket

A chart without cycles, and hooks that ignite the rocket as soon as it is ready, in the start. -/

/-- The element tree of a rocket. -/
def Chart.rocketElement : Markup.Element :=
  ⟨"scxml", [⟨"name", "Rocket"⟩],
    [⟨"state", [⟨"id", "Ready"⟩],
        [⟨"transition", [⟨"event", "Ignite"⟩, ⟨"target", "Lit"⟩], []⟩]⟩,
      ⟨"state", [⟨"id", "Lit"⟩],
        [⟨"transition", [⟨"event", "Rise"⟩, ⟨"target", "Gone"⟩, ⟨"action", "Release"⟩], []⟩]⟩,
      ⟨"state", [⟨"id", "Gone"⟩], []⟩]⟩

/-- The chart of a rocket. -/
def Chart.rocket : Chart where
  className := "Rocket"
  package? := none
  initial := "Ready"
  base? := none
  debug := false
  states :=
    [⟨"Ready", [⟨"Ignite", "Lit", []⟩]⟩, ⟨"Lit", [⟨"Rise", "Gone", ["Release"]⟩]⟩, ⟨"Gone", []⟩]

theorem Chart.isDocument_rocket : rocket.IsDocument :=
  have hread : ofElement rocketElement = .ok rocket := rfl
  .read hread

/-- The states of a rocket are peeled off from the last one. -/
theorem Chart.hasCycles_rocket : (Graph.ofChart rocket).hasCycles = false := by
  have hlast : Graph.peel (Graph.ofChart rocket).successors [] = [] := by
    rw [Graph.peel, if_neg (by decide)]
  have hpeel : Graph.peel (Graph.ofChart rocket).successors (Graph.ofChart rocket).nodes = [] := by
    rw [Graph.peel, if_pos (by decide), Graph.peel, if_pos (by decide), Graph.peel,
      if_pos (by decide)]
    exact hlast
  rw [Graph.hasCycles, hpeel]
  rfl

/-- A rocket that is ignited by its own start. -/
def MachineSetup.countdown : MachineSetup (List Nat) where
  chart := .rocket
  hooks := .ofRules [⟨.stateChange, some "Ready", 0, none, [.call (.push "Ignite") false]⟩]

/-- The countdown enters every state once and uses up all its pushes, one of them in the hook of the
start. -/
theorem MachineSetup.runs_down_countdown :
    ∃ requests : List Request,
      enteredStates (countdown.lifeTrace { memory := [0] } requests) = ["Ready", "Lit", "Gone"] ∧
      (enteredStates (countdown.lifeTrace { memory := [0] } requests)).Nodup ∧
      ((countdown.life { memory := [0] } requests).flatMap (·.within countdown 1)).countP
        (·.advances countdown) = 2 ∧
      ((countdown.life { memory := [0] } requests).flatMap (·.within countdown 1)).countP
        (·.advances countdown) ≤ (Graph.ofChart .rocket).stats.states - 1 := by
  refine ⟨[.push "Rise", .start, .push "Rise", .push "Rise"], rfl, ?_, rfl, ?_⟩
  · exact (runs_down Chart.isDocument_rocket (s := countdown) rfl Chart.hasCycles_rocket _ _).1
  · exact ((runs_down Chart.isDocument_rocket (s := countdown) rfl Chart.hasCycles_rocket _ _).2
      1).1

end Statechart
