import Statechart.Proofs.Machine.Execution
import Statechart.Proofs.Machine.Steps
set_option autoImplicit false

/-!
# Machines: one push at a time

Hooks may call the machine at any moment, and the steps of a machine set no bound on how deep such
calls are nested.  The bound comes from the machine's own marks: `Flight` lists the calls that can be
carried out at the same time, and every step keeps to the list.
-/

namespace Statechart

variable {σ : Type}

/-- The call whose hook runs. -/
def Control.hook? : Control σ → Option Request
  | .running activity _ => some activity.request
  | .calling _ => none
  | .dispatching _ => none
  | .proceeding _ _ => none
  | .settling _ _ => none
  | .ending _ _ => none
  | .returning _ => none

namespace Config

/-- The calls whose hooks have been called and have not returned, the innermost first. -/
def hooks (c : Config σ) : List Request :=
  c.control.hook?.toList ++ c.waiting.map (·.activity.request)

/-- The events of the pushes that are being carried out. -/
def pushes (c : Config σ) : List String :=
  c.active.filterMap Request.event?

/-- Hooks are only called by calls that are being carried out. -/
theorem hooks_sublist_active (c : Config σ) : c.hooks.Sublist c.active := by
  refine List.Sublist.append ?_ (List.Sublist.refl _)
  cases c.control with
  | running activity script => exact List.Sublist.refl _
  | _ => exact List.nil_sublist _

end Config

/-- The calls that can be carried out at the same time, the innermost first, and whether the machine
is marked as pushing then. -/
inductive Flight : List Request → Bool → Prop where
  | idle : Flight [] false
  | start : Flight [.start] false
  | push (event : String) : Flight [.push event] true
  | pushInStart (event : String) : Flight [.push event, .start] true

namespace Flight

variable {active : List Request} {pushing : Bool}

theorem length_le (h : Flight active pushing) : active.length ≤ 2 := by
  cases h <;> simp

theorem eq_of_length (h : Flight active pushing) (hlength : active.length = 2) :
    ∃ event, active = [.push event, .start] := by
  cases h with
  | pushInStart event => exact ⟨event, rfl⟩
  | _ => cases hlength

theorem pushes_length_le (h : Flight active pushing) :
    (active.filterMap Request.event?).length ≤ 1 := by
  cases h <;> simp [List.filterMap_cons, Request.event?]

/-- The machine is marked exactly while a push is being carried out. -/
theorem pushing_iff (h : Flight active pushing) :
    pushing = true ↔ (active.filterMap Request.event?).length = 1 := by
  cases h <;> simp [List.filterMap_cons, Request.event?]

/-- The machine is not marked when nothing is in progress. -/
theorem eq_false (h : Flight [] pushing) : pushing = false := by
  cases h
  rfl

/-- A push can be accepted when the machine is not marked. -/
theorem accept_push (h : Flight active false) (event : String) :
    Flight (.push event :: active) true := by
  cases h with
  | idle => exact .push event
  | start => exact .pushInStart event

theorem start_done (h : Flight (.start :: active) pushing) : Flight active pushing := by
  cases h
  exact .idle

theorem push_done {event : String} (h : Flight (.push event :: active) pushing) :
    Flight active false := by
  cases h with
  | push event => exact .idle
  | pushInStart event => exact .start

end Flight

namespace Config

/-- The invariant of all moments: the calls that are being carried out are in flight, and the machine
has been started if there are any. -/
structure Guarded (c : Config σ) : Prop where
  flight : Flight c.active c.machine.pushing
  started : c.active ≠ [] → c.machine.lifecycle = .started

theorem guarded_ofCall {request : Request} {m : Machine σ} (hm : m.pushing = false) :
    (ofCall request m).Guarded := by
  refine ⟨?_, fun hactive => absurd rfl hactive⟩
  unfold ofCall active
  rw [hm]
  exact .idle

/-- What leaves the calls in progress, the lifecycle and the mark alone keeps the invariant. -/
theorem Guarded.of_eq {c d : Config σ} (h : c.Guarded) (hactive : d.active = c.active)
    (hlifecycle : d.machine.lifecycle = c.machine.lifecycle)
    (hpushing : d.machine.pushing = c.machine.pushing) : d.Guarded := by
  refine ⟨?_, ?_⟩
  · rw [hactive, hpushing]
    exact h.flight
  · rw [hactive, hlifecycle]
    exact h.started

/-- Nothing is in progress before the start. -/
theorem Guarded.active_eq_nil {c : Config σ} (h : c.Guarded)
    (hnot : c.machine.lifecycle = .notStarted) : c.active = [] := by
  cases hactive : c.active with
  | nil => rfl
  | cons request rest =>
    have hstarted := h.started (hactive ▸ List.cons_ne_nil _ _)
    rw [hnot] at hstarted
    cases hstarted

/-- A machine is busy while a push is being carried out. -/
theorem Guarded.busy {c : Config σ} (h : c.Guarded) (hpushes : c.pushes ≠ []) :
    c.machine.Busy := by
  have hpos := List.length_pos_iff.2 hpushes
  have hle := h.flight.pushes_length_le
  refine ⟨h.started ?_, h.flight.pushing_iff.2 (Nat.le_antisymm hle hpos)⟩
  intro hnone
  apply hpushes
  unfold pushes
  rw [hnone]
  rfl

/-- A hook only waits while a call is being carried out. -/
theorem Guarded.started_of_waiting {c : Config σ} (h : c.Guarded) (hwaiting : c.waiting ≠ []) :
    c.machine.lifecycle = .started := by
  apply h.started
  intro hnone
  apply hwaiting
  exact List.map_eq_nil_iff.1 (List.append_eq_nil_iff.1 hnone).2

end Config

namespace MachineSetup

variable {s : MachineSetup σ}

/-- Every step keeps the invariant. -/
theorem guarded_shift {c d : Config σ} (h : c.Guarded) (hshift : s.Shift c d) : d.Guarded := by
  cases hshift with
  | quiet hactive _ hsituation =>
    obtain ⟨hlifecycle, _, hpushing⟩ := Machine.eq_of_situation hsituation
    exact h.of_eq hactive hlifecycle hpushing
  | started hnot hactive _ hsituation =>
    obtain ⟨hlifecycle, _, hpushing⟩ := Machine.eq_of_situation hsituation
    have hnone := h.active_eq_nil hnot
    have hmark := Flight.eq_false (hnone ▸ h.flight)
    refine ⟨?_, fun _ => hlifecycle⟩
    rw [hactive, hnone, hpushing, hmark]
    exact .start
  | pushed event _ hidle hactive _ hsituation =>
    obtain ⟨hlifecycle, _, hpushing⟩ := Machine.eq_of_situation hsituation
    refine ⟨?_, fun _ => hlifecycle⟩
    rw [hactive, hpushing]
    exact Flight.accept_push (hidle ▸ h.flight) event
  | resolved _ _ hactive _ hsituation =>
    obtain ⟨hlifecycle, _, hpushing⟩ := Machine.eq_of_situation hsituation
    exact h.of_eq hactive hlifecycle hpushing
  | entered target _ hactive _ hsituation =>
    obtain ⟨hlifecycle, _, hpushing⟩ := Machine.eq_of_situation hsituation
    exact h.of_eq hactive hlifecycle hpushing
  | startDone hactive _ hsituation =>
    obtain ⟨hlifecycle, _, hpushing⟩ := Machine.eq_of_situation hsituation
    have hstarted := h.started (hactive ▸ List.cons_ne_nil _ _)
    refine ⟨?_, fun _ => hlifecycle.trans hstarted⟩
    rw [hpushing]
    exact Flight.start_done (hactive ▸ h.flight)
  | pushDone event hactive _ hsituation =>
    obtain ⟨hlifecycle, _, hpushing⟩ := Machine.eq_of_situation hsituation
    have hstarted := h.started (hactive ▸ List.cons_ne_nil _ _)
    refine ⟨?_, fun _ => hlifecycle.trans hstarted⟩
    rw [hpushing]
    exact Flight.push_done (hactive ▸ h.flight)

/-- **The invariant of all moments.** -/
theorem Reached.guarded {c : Config σ} (hc : s.Reached c) : c.Guarded := by
  induction hc with
  | first memory request => exact Config.guarded_ofCall rfl
  | @again c _ outcome hcontrol hwaiting request ih =>
    have hidle : c.active = [] := by
      unfold Config.active
      rw [hcontrol, hwaiting]
      rfl
    exact Config.guarded_ofCall (Flight.eq_false (hidle ▸ ih.flight))
  | step _ hstep ih => exact guarded_shift ih (shift_of_step hstep)

/-! ## Refusals -/

/-- A call that is refused comes back at once, and nothing happens on the way. -/
theorem step_calling_of_refuse? {c : Config σ} {request : Request} {m : Machine σ}
    {outcome : Outcome} (hcontrol : c.control = .calling request)
    (hrefuse : refuse? request c.machine = some (.answer m outcome)) :
    s.step c = some { c with control := .returning outcome, machine := m } := by
  unfold step
  rw [hcontrol]
  simp only [hrefuse, Run.answer_machine, Run.answer_outcome, Run.answer_trace, List.append_nil]

/-- **One push at a time**, at every moment of a machine's life, for arbitrary hooks.  The machine is
marked exactly while a push is being carried out, and one at most is.  A push that a hook makes
during another one is refused at once, and so is every start that a hook makes.  Hooks are nested at
most two deep, a hook of a push inside the hook of a start.  Every moment lies on the way from a call
from outside to its answer. -/
theorem single_flight {c : Config σ} (hc : s.Reached c) :
    (c.machine.pushing = true ↔ c.pushes.length = 1) ∧ c.pushes.length ≤ 1 ∧
    (∀ event, c.control = .calling (.push event) → c.pushes ≠ [] →
      s.step c = some { c with
        control := .returning (.error (.reentrant event))
        machine := c.machine.noting (.push event) }) ∧
    (c.control = .calling .start → c.waiting ≠ [] →
      s.step c = some { c with control := .returning (.error .alreadyStarted) }) ∧
    c.hooks.length ≤ 2 ∧
    (c.hooks.length = 2 → ∃ event, c.hooks = [.push event, .start]) ∧
    (∃ request m, s.Leads (.ofCall request m) c ∧
      s.Leads c (.ofRun (s.perform request m))) ∧
    ∀ request m, s.Leads (.ofCall request m) (.ofRun (s.perform request m)) ∧
      s.step (.ofRun (s.perform request m)) = none := by
  have hguarded := hc.guarded
  refine ⟨hguarded.flight.pushing_iff, hguarded.flight.pushes_length_le, ?_, ?_, ?_, ?_, ?_, ?_⟩
  · intro event hcontrol hpushes
    exact step_calling_of_refuse? hcontrol (refuse?_of_busy (hguarded.busy hpushes) _)
  · intro hcontrol hwaiting
    exact step_calling_of_refuse? hcontrol
      (refuse?_start_of_started (hguarded.started_of_waiting hwaiting))
  · exact Nat.le_trans c.hooks_sublist_active.length_le hguarded.flight.length_le
  · intro hlength
    have hle := c.hooks_sublist_active.length_le
    have hmost := hguarded.flight.length_le
    have hsame : c.hooks = c.active := c.hooks_sublist_active.eq_of_length (by omega)
    rw [hsame] at hlength ⊢
    exact hguarded.flight.eq_of_length hlength
  · obtain ⟨request, m, hleads⟩ := hc.exists_call
    exact ⟨request, m, hleads, leads_ofRun hleads⟩
  · exact fun request m => ⟨leads_perform request m, step_ofRun _⟩

/-- At the kicked door: the hook that kicks is one of the push that opens the door, and the kick is
refused. -/
theorem single_flight_kickedDoor :
    ∃ c, kickedDoor.Reached c ∧ c.control = .calling (.push "Kick") ∧ c.pushes = ["Open"] ∧
      c.hooks = [.push "Open"] ∧
      kickedDoor.step c = some { c with
        control := .returning (.error (.reentrant "Kick"))
        machine := c.machine.noting (.push "Kick") } := by
  have hstarted : kickedDoor.Reached (.ofRun (kickedDoor.perform .start (.ofRules kickingHooks))) :=
    (Reached.first [0] .start).leads (leads_perform _ _)
  have hcalled := hstarted.again rfl rfl (.push "Open")
  have hkick := (((hcalled.step rfl).step rfl).step rfl).step rfl
  exact ⟨_, hkick, rfl, rfl, rfl,
    (single_flight hkick).2.2.1 "Kick" rfl (List.cons_ne_nil "Open" [])⟩

end MachineSetup

end Statechart
