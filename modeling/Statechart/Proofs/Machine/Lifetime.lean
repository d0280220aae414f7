import Statechart.Proofs.Machine.Execution
set_option autoImplicit false

/-!
# Machines: whole lives

A life of a machine is any row of calls made to it from outside, with hooks that call it back in
between.  After each of these calls nothing of it is left behind but the lifecycle, the current
state and the memory of the hooks, and over the whole life one start calls a hook.
-/

namespace Statechart

variable {σ : Type}

/-- A call from outside, and the machine that it is made to. -/
structure LifeCall (σ : Type) where
  request : Request
  before : Machine σ

/-- What the call leads to. -/
def LifeCall.run (s : MachineSetup σ) (c : LifeCall σ) : Run σ :=
  s.perform c.request c.before

namespace MachineSetup

variable {s : MachineSetup σ}

/-- Calls made one after the other. -/
def life (s : MachineSetup σ) : Machine σ → List Request → List (LifeCall σ)
  | _, [] => []
  | m, request :: rest => ⟨request, m⟩ :: s.life (s.perform request m).machine rest

/-! ## The hooks that a call calls itself -/

/-- A call of which nothing is recorded. -/
def performSilently (s : MachineSetup σ) (request : Request) (m : Machine σ) : Run σ :=
  { s.perform request m with trace := [] }

/-- A call with the records of the calls that its hooks make left out. -/
def ownRun (s : MachineSetup σ) (request : Request) (m : Machine σ) : Run σ :=
  (refuse? request m).getD (s.accept s.performSilently request m)

/-- The hook calls that a call makes itself. -/
def ownHooks (s : MachineSetup σ) (request : Request) (m : Machine σ) : List HookCall :=
  hookCalls (s.ownRun request m).trace

/-- A hook does the same when nothing is recorded of its calls, and then only these are recorded. -/
theorem runScript_silently (m : Machine σ) (script : Script σ) :
    (s.runScript s.performSilently m script).machine = (s.runScript s.perform m script).machine ∧
    (s.runScript s.performSilently m script).outcome = (s.runScript s.perform m script).outcome ∧
    hookCalls (s.runScript s.performSilently m script).trace = [] := by
  induction script generalizing m with
  | finish memory outcome => exact ⟨rfl, rfl, rfl⟩
  | call memory request next ih =>
    obtain ⟨hmachine, houtcome, hcalls⟩ := ih
      (s.perform request { m with memory }).machine.memory
      (s.perform request { m with memory }).outcome
      (s.view (s.perform request { m with memory }).machine)
      (s.perform request { m with memory }).machine
    exact ⟨hmachine, houtcome, hcalls⟩

/-- Leaving records out changes neither where a call leads nor how it ends. -/
theorem ownRun_eq (request : Request) (m : Machine σ) :
    (s.ownRun request m).machine = (s.perform request m).machine ∧
    (s.ownRun request m).outcome = (s.perform request m).outcome := by
  unfold ownRun
  cases hrefuse : refuse? request m with
  | some run =>
    rw [perform_of_refuse? hrefuse]
    exact ⟨rfl, rfl⟩
  | none =>
    rw [perform_of_accept hrefuse, Option.getD_none]
    cases request with
    | start =>
      obtain ⟨hmachine, houtcome, _⟩ := runScript_silently (s := s)
        { m with lifecycle := .started, current? := s.chart.position? s.chart.initial } _
      exact ⟨hmachine, houtcome⟩
    | push event =>
      have hkept : Kept s.performSilently Machine.Busy :=
        ⟨(kept_busy s 2).remember, (kept_busy s 2).call⟩
      have hsame : s.accept s.performSilently (.push event) m =
          s.accept s.perform (.push event) m := by
        refine accept_push_congr hkept ?_ (refuse?_push_eq_none_iff.1 hrefuse).1 event
        intro request m hm
        unfold performSilently
        rw [perform_of_busy hm]
        rfl
      rw [hsame]
      exact ⟨rfl, rfl⟩

/-- A start that is carried out calls the hook of the initial state, once. -/
theorem ownHooks_start_of_notStarted {m : Machine σ} (h : m.lifecycle = .notStarted) :
    s.ownHooks .start m = [.stateChange s.chart.initial] := by
  have haccept : refuse? .start m = none := refuse?_start_eq_none_iff.2 h
  unfold ownHooks ownRun
  rw [haccept, Option.getD_none]
  obtain ⟨_, _, hcalls⟩ := runScript_silently (s := s)
    { m with lifecycle := .started, current? := s.chart.position? s.chart.initial } _
  exact congrArg (HookCall.stateChange s.chart.initial :: ·) hcalls

/-- A start of a started machine calls no hook. -/
theorem ownHooks_start_of_started {m : Machine σ} (h : m.lifecycle = .started) :
    s.ownHooks .start m = [] := by
  unfold ownHooks ownRun
  rw [refuse?_start_of_started h]
  rfl

/-! ## Lives -/

/-- A machine is never unstarted. -/
theorem started_perform {m : Machine σ} (h : m.lifecycle = .started) (request : Request) :
    (s.perform request m).machine.lifecycle = .started :=
  (kept_started s 1).call request m h

theorem started_start (m : Machine σ) : (s.perform .start m).machine.lifecycle = .started := by
  cases hl : m.lifecycle with
  | started => exact started_perform hl .start
  | notStarted =>
    rw [perform_of_accept (refuse?_start_eq_none_iff.2 hl)]
    exact (kept_started s 1).callHook rfl _

/-- Every call of a life is made at a moment at which nothing is in progress. -/
theorem moment_of_mem_life {m : Machine σ} (hm : s.Moment [] m) {requests : List Request}
    {c : LifeCall σ} (hc : c ∈ s.life m requests) : s.Moment [] c.before := by
  induction requests generalizing m with
  | nil => exact nomatch hc
  | cons request rest ih =>
    rcases List.mem_cons.1 hc with rfl | hc
    · exact hm
    · exact ih (hm.returned request) hc

theorem started_of_mem_life {m : Machine σ} (hm : m.lifecycle = .started)
    {requests : List Request} {c : LifeCall σ} (hc : c ∈ s.life m requests) :
    c.before.lifecycle = .started := by
  induction requests generalizing m with
  | nil => exact nomatch hc
  | cons request rest ih =>
    rcases List.mem_cons.1 hc with rfl | hc
    · exact hm
    · exact ih (started_perform hm request) hc

/-- Once started, a machine stays started over the rest of its life. -/
theorem pairwise_started (m : Machine σ) (requests : List Request) :
    (s.life m requests).Pairwise fun c d =>
      (c.run s).machine.lifecycle = .started → (d.run s).machine.lifecycle = .started := by
  induction requests generalizing m with
  | nil => exact List.Pairwise.nil
  | cons request rest ih =>
    refine List.pairwise_cons.2 ⟨?_, ih _⟩
    intro d hd hstarted
    exact started_perform (started_of_mem_life hstarted hd) d.request

/-- In a life that begins unstarted, the first start is made to an unstarted machine and every other
start to a started one. -/
theorem starts_of_life {m : Machine σ} (hm : m.lifecycle = .notStarted)
    {requests : List Request} {first : LifeCall σ} {others : List (LifeCall σ)}
    (h : (s.life m requests).filter (·.request = .start) = first :: others) :
    first.before.lifecycle = .notStarted ∧ ∀ c ∈ others, c.before.lifecycle = .started := by
  induction requests generalizing m with
  | nil => cases h
  | cons request rest ih =>
    cases request with
    | start =>
      rw [life, List.filter_cons_of_pos (by simp)] at h
      obtain ⟨rfl, rfl⟩ := List.cons.inj h
      refine ⟨hm, ?_⟩
      intro c hc
      exact started_of_mem_life (started_start m) (List.mem_filter.1 hc).1
    | push event =>
      rw [life, List.filter_cons_of_neg (by simp)] at h
      have hrefuse : refuse? (.push event) m = some (.answer m (.error .notStarted)) := by
        simp [refuse?, hm]
      have hrefused : (s.perform (.push event) m).machine = m := by
        rw [perform_of_refuse? hrefuse]
        rfl
      rw [hrefused] at h
      exact ih hm h

/-- A push on a machine that has been started is turned down for another reason than not having been
started, unless one of its hooks says so. -/
theorem notStarted_of_idle {m : Machine σ} (hm : m.Idle s.chart)
    {event : String} (hout : (s.perform (.push event) m).outcome = .error .notStarted) :
    ∃ h ∈ s.pushSteps event m, h.returned s = .error .notStarted := by
  obtain ⟨state, hstate⟩ := hm.toPlaced.exists_name hm.started
  cases ht : s.chart.resolve state event with
  | none =>
    have hnone : (s.currentName? m).bind (s.chart.resolve · event) = none := by
      rw [hstate]
      exact ht
    rw [perform_push_of_unresolved (hm.accepts event) hm.rejected hnone] at hout
    simp only [Run.answer_outcome, Except.error.injEq, complaint, hstate] at hout
    split at hout <;> cases hout
  | some t =>
    obtain ⟨row, hrow, _, houtcome, _⟩ := performed_push (hm.accepts event) hm.rejected hstate ht
    have hrowOut : row.outcome = .error .notStarted := houtcome.symm.trans hout
    cases hpushed : pushedEvents row.trace with
    | cons pushed more =>
      rw [hrow.outcome_of_pushed hm.ready (by rw [hpushed]; rfl)] at hrowOut
      cases hrowOut
    | nil =>
      rcases hrow.outcome_of_unpushed hm.ready hpushed with hok | ⟨h, hmem, hreturn⟩
      · rw [hok] at hrowOut
        cases hrowOut
      · exact ⟨h, hmem, hreturn.symm.trans hrowOut⟩

/-- **Lives.**  After every call no push is in progress and no refused event is waiting, so that the
next push is not refused on their account; the machine has a current state exactly when it has been
started, and stays started from the first start on, however that ended.  A push on a started machine
never says by itself that it has not been started.  Over the whole life start calls one hook, that
of the initial state, in the first start; starts made by hooks call none.  The hooks that a call
calls itself are those recorded of it when the calls that its hooks make are not recorded, which
changes nothing else. -/
theorem life_invariant (hd : s.chart.IsDocument) (memory : σ) (requests : List Request) :
    (∀ c ∈ s.life { memory } requests,
      (c.run s).machine.Settled ∧ (c.run s).machine.Placed s.chart ∧
      (c.request = .start → (c.run s).machine.lifecycle = .started) ∧
      ∀ event, c.request = .push event → c.before.lifecycle = .started →
        refuse? (.push event) c.before = none ∧
        ((c.run s).outcome = .error .notStarted →
          ∃ h ∈ s.pushSteps event c.before, h.returned s = .error .notStarted)) ∧
    ((s.life { memory } requests).Pairwise fun c d =>
      (c.run s).machine.lifecycle = .started → (d.run s).machine.lifecycle = .started) ∧
    (∀ first others,
      (s.life { memory } requests).filter (·.request = .start) = first :: others →
      s.ownHooks .start first.before = [.stateChange s.chart.initial] ∧
      ∀ c ∈ others, s.ownHooks .start c.before = []) ∧
    (∀ request stack m, s.Moment (request :: stack) m → s.ownHooks .start m = []) ∧
    (∀ request m, (s.ownRun request m).machine = (s.perform request m).machine ∧
      (s.ownRun request m).outcome = (s.perform request m).outcome) := by
  have hc := hd.wellFormed
  refine ⟨?_, pairwise_started _ _, ?_, ?_, ownRun_eq⟩
  · intro c hmem
    have hmoment := moment_of_mem_life (Moment.created memory) hmem
    have hbefore := hmoment.consistent hc
    have hafter := (hmoment.returned c.request).consistent hc
    refine ⟨hafter.settled fun _ => List.not_mem_nil, hafter.toPlaced, ?_, ?_⟩
    · intro hstart
      unfold LifeCall.run
      rw [hstart]
      exact started_start c.before
    · intro event hpush hstarted
      have hsettled := hbefore.settled fun _ => List.not_mem_nil
      refine ⟨refuse?_push_eq_none_iff.2 ⟨hstarted, hsettled.pushing⟩, ?_⟩
      intro hout
      unfold LifeCall.run at hout
      rw [hpush] at hout
      exact notStarted_of_idle ⟨hsettled, hbefore.toPlaced, hstarted⟩ hout
  · intro first others hstarts
    obtain ⟨hfirst, hothers⟩ := starts_of_life rfl hstarts
    refine ⟨ownHooks_start_of_notStarted hfirst, ?_⟩
    intro c hmem
    exact ownHooks_start_of_started (hothers c hmem)
  · intro request stack m hm
    exact ownHooks_start_of_started ((hm.consistent hc).started (List.cons_ne_nil _ _))

/-- Opening the kicked door leaves no trace of the kick, and starting it again calls no hook. -/
theorem life_invariant_kickedDoor :
    Machine.Settled (kickedDoor.perform (.push "Open")
      (kickedDoor.perform .start (.ofRules kickingHooks)).machine).machine ∧
    kickedDoor.ownHooks .start (.ofRules kickingHooks) = [.stateChange "Closed"] := by
  obtain ⟨hcalls, _, hstarts, _⟩ := life_invariant Chart.isDocument_door (s := kickedDoor)
    [0] [.start, .push "Open", .start]
  refine ⟨?_, (hstarts _ _ rfl).1⟩
  exact (hcalls ⟨.push "Open", (kickedDoor.perform .start (.ofRules kickingHooks)).machine⟩
    (List.mem_cons_of_mem _ List.mem_cons_self)).1

end MachineSetup

end Statechart
