import Statechart.Proofs.Graph.Closure
import Statechart.Proofs.Machine.Lifetime
import Statechart.Proofs.Machine.Steps
set_option autoImplicit false

/-!
# Machines stay in the reachable part of their chart

A push fixes its target when it finds its transition and enters the target some steps later, when
hooks have run in between.  So the invariant speaks of both: the current state is reachable, and so
is every target that is still to be entered.
-/

namespace Statechart

variable {σ : Type}

/-- A state change that a transition plans is the one to its target. -/
theorem Transition.eq_target_of_mem_plan {t : Transition} {target : String}
    (h : .stateChange target ∈ t.plan) : target = t.target := by
  simpa [Transition.plan] using h

namespace MachineSetup

variable {s : MachineSetup σ}

/-- The node of the current state is reachable, and so is that of every target still to be
entered. -/
structure Confined (s : MachineSetup σ) (c : Config σ) : Prop where
  current : ∀ node, c.machine.current? = some node →
    node ∈ (Graph.ofChart s.chart).reachableNodes
  pending : ∀ target, .stateChange target ∈ c.pending → ∀ node,
    s.chart.position? target = some node → node ∈ (Graph.ofChart s.chart).reachableNodes

/-- What leaves the current state alone and adds no hook calls keeps the machine confined. -/
theorem Confined.of_eq {c d : Config σ} (h : s.Confined c) (hpending : d.pending ⊆ c.pending)
    (hcurrent : d.machine.current? = c.machine.current?) : s.Confined d :=
  ⟨hcurrent ▸ h.current, fun target htarget => h.pending target (hpending htarget)⟩

/-- Every step keeps the machine confined. -/
theorem confined_shift (hc : s.chart.WellFormed) {c d : Config σ} (h : s.Confined c)
    (hshift : s.Shift c d) : s.Confined d := by
  cases hshift with
  | quiet _ hpending hsituation =>
    exact h.of_eq hpending (Machine.eq_of_situation hsituation).2.1
  | started _ _ hpending hsituation =>
    obtain ⟨_, hcurrent, _⟩ := Machine.eq_of_situation hsituation
    refine ⟨?_, fun target htarget => h.pending target (hpending htarget)⟩
    rw [hcurrent]
    exact fun node => Graph.position?_initial_mem_reachableNodes
  | pushed _ _ _ _ hpending hsituation =>
    exact h.of_eq hpending (Machine.eq_of_situation hsituation).2.1
  | @resolved state event t hstate ht _ hpending hsituation =>
    obtain ⟨_, hcurrent, _⟩ := Machine.eq_of_situation hsituation
    refine ⟨hcurrent ▸ h.current, ?_⟩
    intro target htarget node hnode
    rcases List.mem_append.1 (hpending htarget) with hplan | hold
    · -- the target of the transition is one move away from the current state
      obtain ⟨source, hsource, hname⟩ := Option.bind_eq_some_iff.1 hstate
      rw [Transition.eq_target_of_mem_plan hplan] at hnode
      exact Graph.mem_reachableNodes_of_resolve hc (h.current source hsource) hname ht hnode
    · exact h.pending target hold node hnode
  | entered target htarget _ hpending hsituation =>
    obtain ⟨_, hcurrent, _⟩ := Machine.eq_of_situation hsituation
    refine ⟨?_, fun target htarget => h.pending target (hpending htarget)⟩
    rw [hcurrent]
    exact h.pending target htarget
  | startDone _ hpending hsituation =>
    exact h.of_eq hpending (Machine.eq_of_situation hsituation).2.1
  | pushDone _ _ hpending hsituation =>
    exact h.of_eq hpending (Machine.eq_of_situation hsituation).2.1

/-- **Machines are confined at every moment.** -/
theorem Reached.confined (hc : s.chart.WellFormed) {c : Config σ} (h : s.Reached c) :
    s.Confined c := by
  induction h with
  | first memory request =>
    refine ⟨?_, fun target htarget => absurd htarget List.not_mem_nil⟩
    intro node hnode
    cases hnode
  | again _ _ _ request ih => exact ih.of_eq (List.nil_subset _) rfl
  | step _ hstep ih => exact confined_shift hc ih (shift_of_step hstep)

/-- The end of a call from outside is a moment, whatever calls came before. -/
theorem reached_of_mem_life {m : Machine σ} (hm : ∀ request, s.Reached (.ofCall request m))
    {requests : List Request} {call : LifeCall σ} (hcall : call ∈ s.life m requests) :
    s.Reached (.ofRun (call.run s)) := by
  induction requests generalizing m with
  | nil => exact absurd hcall List.not_mem_nil
  | cons request rest ih =>
    have hend : s.Reached (.ofRun (s.perform request m)) :=
      (hm request).leads (leads_perform request m)
    rcases List.mem_cons.1 hcall with rfl | hcall
    · exact hend
    · exact ih (fun request => hend.again rfl rfl request) hcall

/-- **The analysis of a graph is sound for the machine**, for arbitrary hooks.  A state that is
current at some moment, in the middle of a call or after any calls from outside, is listed as
reachable and not listed as unreachable. -/
theorem reachable_of_current (hd : s.chart.IsDocument) :
    (∀ c id, s.Reached c → s.currentName? c.machine = some id →
      id ∈ (Graph.ofChart s.chart).reachableStates ∧
      id ∉ (Graph.ofChart s.chart).unreachableStates) ∧
    ∀ memory requests id, ∀ call ∈ s.life { memory } requests,
      s.currentName? (call.run s).machine = some id →
      id ∈ (Graph.ofChart s.chart).reachableStates ∧
      id ∉ (Graph.ofChart s.chart).unreachableStates := by
  have hmoment : ∀ c id, s.Reached c → s.currentName? c.machine = some id →
      id ∈ (Graph.ofChart s.chart).reachableStates ∧
      id ∉ (Graph.ofChart s.chart).unreachableStates := by
    intro c id hc hid
    obtain ⟨node, hcurrent, hname⟩ := Option.bind_eq_some_iff.1 hid
    have hnode := (hc.confined hd.wellFormed).current node hcurrent
    have hlabel : (Graph.ofChart s.chart).labels[node]? = some id :=
      List.getElem?_map.trans hname
    exact ⟨Graph.mem_reachableStates hlabel hnode,
      Graph.not_mem_unreachableStates hd.wellFormed.nodup_ids hlabel hnode⟩
  refine ⟨hmoment, fun memory requests id call hcall hid => ?_⟩
  exact hmoment _ id (reached_of_mem_life (fun request => .first memory request) hcall) hid

/-- At the kicked door: a kick from outside, which the opened door leaves to the base state, breaks
the door. -/
theorem reachable_of_current_kickedDoor :
    ∃ call ∈ kickedDoor.life { memory := [0] }
        [.start, .push "Open", .push "Open", .push "Kick"],
      kickedDoor.currentName? call.before = some "Opened" ∧
      kickedDoor.currentName? (call.run kickedDoor).machine = some "Broken" ∧
      "Broken" ∈ (Graph.ofChart .door).reachableStates ∧
      "Broken" ∉ (Graph.ofChart .door).unreachableStates := by
  have hcall : ∃ m, ⟨.push "Kick", m⟩ ∈ kickedDoor.life { memory := [0] }
      [.start, .push "Open", .push "Open", .push "Kick"] ∧
      kickedDoor.currentName? m = some "Opened" ∧
      kickedDoor.currentName? (kickedDoor.perform (.push "Kick") m).machine = some "Broken" :=
    ⟨_, List.mem_of_getLast? rfl, rfl, rfl⟩
  obtain ⟨m, hmem, hopened, hbroken⟩ := hcall
  exact ⟨_, hmem, hopened, hbroken,
    (reachable_of_current Chart.isDocument_door (s := kickedDoor)).2 _ _ _ _ hmem hbroken⟩

end MachineSetup

end Statechart
