import Statechart.Machine.Fleet
import Statechart.Proofs.Machine.Descent
import Statechart.Proofs.Machine.Refusals
import Statechart.Proofs.Machine.SingleFlight
set_option autoImplicit false

/-!
# Machines over one chart are independent

Machines that run the same chart share nothing else: where a machine is, whether a push is in
progress, which event was refused and what its hooks remember are all its own.  So whatever calls
are made to the other machines in between, a machine gives the answers that it gives when it is
alone.

Calls come one after the other (`MachineSetup.performAll`), or the steps that carry them out are
taken in turns (`MachineSetup.overlap`), so that pushes to several machines are in progress at the
same time.  Both are a list whose members are changed by calls addressed to them, and
`getElem?_changeAll` says what becomes of one member.
-/

namespace Statechart

variable {σ α : Type}

/-! ## Calls to one of several -/

/-- The calls that are addressed to a machine, in order. -/
def requestsFor (i : Nat) (calls : List AddressedRequest) : List Request :=
  (calls.filter (·.machine = i)).map (·.request)

/-- The reports of the calls that are addressed to a machine, in order. -/
def reportsFor (i : Nat) (calls : List AddressedRequest) (reports : List (Option CallReport)) :
    List (Option CallReport) :=
  ((calls.zip reports).filter (·.1.machine = i)).map (·.2)

/-- Calls to the only machine there is. -/
def alone (requests : List Request) : List AddressedRequest :=
  requests.map (⟨0, ·⟩)

/-- A list after calls, each of which changes the member that it is addressed to. -/
def changeAll (change : Request → α → α) (members : List α) (calls : List AddressedRequest) :
    List α :=
  calls.foldl (fun members call => members.modify call.machine (change call.request)) members

theorem requestsFor_cons (i : Nat) (call : AddressedRequest) (calls : List AddressedRequest) :
    requestsFor i (call :: calls) =
      if call.machine = i then call.request :: requestsFor i calls else requestsFor i calls := by
  unfold requestsFor
  by_cases h : call.machine = i <;> simp [h]

theorem reportsFor_cons (i : Nat) (call : AddressedRequest) (calls : List AddressedRequest)
    (report : Option CallReport) (reports : List (Option CallReport)) :
    reportsFor i (call :: calls) (report :: reports) =
      if call.machine = i then report :: reportsFor i calls reports
      else reportsFor i calls reports := by
  unfold reportsFor
  by_cases h : call.machine = i <;> simp [h]

/-- **Every member goes its own way.**  Of all calls only those that are addressed to a member
change it. -/
theorem getElem?_changeAll (change : Request → α → α) (members : List α)
    (calls : List AddressedRequest) (i : Nat) :
    (changeAll change members calls)[i]? =
      members[i]?.map fun member =>
        (requestsFor i calls).foldl (fun member request => change request member) member := by
  induction calls generalizing members with
  | nil => simp [changeAll, requestsFor]
  | cons call calls ih =>
    refine (ih (members.modify call.machine (change call.request))).trans ?_
    rw [requestsFor_cons]
    by_cases h : call.machine = i
    · rw [if_pos h, h, List.getElem?_modify_eq, Option.map_eq_map, Option.map_map]
      rfl
    · rw [if_neg h, List.getElem?_modify_ne _ _ h]

theorem changeAll_alone (change : Request → α → α) (member : α) (requests : List Request) :
    changeAll change [member] (alone requests) =
      [requests.foldl (fun member request => change request member) member] := by
  induction requests generalizing member with
  | nil => rfl
  | cons request requests ih => exact ih (change request member)

namespace MachineSetup

variable {s : MachineSetup σ} {m : Machine σ} {machines : List (Machine σ)} {i : Nat}

/-! ## Calls one after the other -/

/-- The machines after calls. -/
def fleetAfter (s : MachineSetup σ) (machines : List (Machine σ))
    (calls : List AddressedRequest) : List (Machine σ) :=
  changeAll (fun request m => (s.perform request m).machine) machines calls

/-- A call is answered by the machine that it is addressed to, and the others are left alone. -/
theorem performAll_cons (machines : List (Machine σ)) (call : AddressedRequest)
    (calls : List AddressedRequest) :
    s.performAll machines (call :: calls) =
      (machines[call.machine]?.map fun m => s.report (s.perform call.request m)) ::
        s.performAll
          (machines.modify call.machine fun m => (s.perform call.request m).machine) calls := by
  rw [performAll]
  cases hfound : machines[call.machine]? with
  | none =>
    have hout := List.getElem?_eq_none_iff.1 hfound
    simp only [Option.map_none, List.modify_eq_self hout]
  | some m =>
    have hset : machines.modify call.machine (fun m => (s.perform call.request m).machine) =
        machines.set call.machine (s.perform call.request m).machine := by
      rw [List.modify_eq_set_getElem?, hfound]
      rfl
    simp only [Option.map_some, hset]

/-- After some calls the others find the machines as those calls left them. -/
theorem performAll_append (machines : List (Machine σ)) (calls more : List AddressedRequest) :
    s.performAll machines (calls ++ more) =
      s.performAll machines calls ++ s.performAll (s.fleetAfter machines calls) more := by
  induction calls generalizing machines with
  | nil => rfl
  | cons call calls ih =>
    rw [List.cons_append, performAll_cons, performAll_cons, ih]
    rfl

theorem length_performAll (machines : List (Machine σ)) (calls : List AddressedRequest) :
    (s.performAll machines calls).length = calls.length := by
  induction calls generalizing machines with
  | nil => rfl
  | cons call calls ih => rw [performAll_cons, List.length_cons, ih, List.length_cons]

/-- A machine alone answers the calls of its life. -/
theorem performAll_alone (m : Machine σ) (requests : List Request) :
    s.performAll [m] (alone requests) =
      (s.life m requests).map fun c => some (s.report (c.run s)) := by
  induction requests generalizing m with
  | nil => rfl
  | cons request requests ih =>
    unfold alone
    rw [List.map_cons, performAll_cons, life, List.map_cons]
    exact congrArg _ (ih _)

/-- The reports of the calls to one of several machines are those of the machine alone. -/
theorem reportsFor_performAll (hm : machines[i]? = some m) (calls : List AddressedRequest) :
    reportsFor i calls (s.performAll machines calls) =
      s.performAll [m] (alone (requestsFor i calls)) := by
  induction calls generalizing machines m with
  | nil => rfl
  | cons call calls ih =>
    rw [performAll_cons, reportsFor_cons, requestsFor_cons]
    by_cases h : call.machine = i
    · rw [if_pos h, if_pos h, h, hm]
      have hnext : (machines.modify i fun m => (s.perform call.request m).machine)[i]? =
          some (s.perform call.request m).machine := by
        rw [List.getElem?_modify_eq, hm]
        rfl
      rw [ih hnext, performAll_alone, performAll_alone]
      rfl
    · rw [if_neg h, if_neg h]
      apply ih
      rw [List.getElem?_modify_ne _ _ h, hm]

theorem getElem?_fleetAfter (hm : machines[i]? = some m) (calls : List AddressedRequest) :
    (s.fleetAfter machines calls)[i]? = some (s.afterCalls m (requestsFor i calls)) := by
  unfold fleetAfter
  rw [getElem?_changeAll, hm]
  rfl

/-! ## Steps in turns -/

end MachineSetup

/-- A machine to which no call is being made. -/
def Config.resting (m : Machine σ) : Config σ :=
  .ofRun (.answer m (.ok ()))

namespace MachineSetup

variable {s : MachineSetup σ} {m : Machine σ} {c : Config σ}

/-- A turn: a machine takes one step of the call that it is carrying out.  If that call has come
back, a new one is made. -/
def turn (s : MachineSetup σ) (request : Request) (c : Config σ) : Config σ :=
  (s.step c).getD (.ofCall request c.machine)

/-- A machine after turns of its own. -/
def takeTurns (s : MachineSetup σ) (c : Config σ) (requests : List Request) : Config σ :=
  requests.foldl (fun c request => s.turn request c) c

/-- Machines that take turns. -/
def overlap (s : MachineSetup σ) (machines : List (Machine σ)) (turns : List AddressedRequest) :
    List (Config σ) :=
  changeAll s.turn (machines.map .resting) turns

/-- A moment of a machine to which calls out of `requests` are made: it rests, or it is on the way
from one of them to the answer that `perform` gives after the earlier ones. -/
inductive Underway (s : MachineSetup σ) (m : Machine σ) (requests : List Request) (c : Config σ) :
    Prop where
  | resting (h : c = .resting m)
  | carrying (earlier : List Request) (request : Request)
    (hcalls : (earlier ++ [request]).Sublist requests)
    (hbefore : s.Leads (.ofCall request (s.afterCalls m earlier)) c)
    (hafter : s.Leads c (.ofRun (s.perform request (s.afterCalls m earlier))))

/-- A call that has come back leads nowhere else. -/
theorem eq_of_leads_of_step_eq_none {c d : Config σ} (h : s.Leads c d) (hend : s.step c = none) :
    c = d := by
  rcases Relation.ReflTransGen.cases_head h with heq | ⟨next, hstep, _⟩
  · exact heq
  · rw [hend] at hstep
    cases hstep

theorem afterCalls_concat (m : Machine σ) (requests : List Request) (request : Request) :
    s.afterCalls m (requests ++ [request]) =
      (s.perform request (s.afterCalls m requests)).machine := by
  unfold afterCalls
  rw [List.foldl_concat]

/-- Every turn keeps a machine on its own way. -/
theorem Underway.turn {requests : List Request} (h : s.Underway m requests c) (request : Request) :
    s.Underway m (requests ++ [request]) (s.turn request c) := by
  cases h with
  | resting hrest =>
    subst hrest
    have hleads : s.Leads (.ofCall request m) (s.turn request (.resting m)) := .refl
    exact .carrying [] request (List.sublist_append_right _ _) hleads (leads_ofRun hleads)
  | carrying earlier last hcalls hbefore hafter =>
    unfold MachineSetup.turn
    cases hstep : s.step c with
    | some d =>
      have hleads := hbefore.tail hstep
      exact .carrying earlier last (hcalls.trans (List.sublist_append_left _ _)) hleads
        (leads_ofRun hleads)
    | none =>
      -- the call has come back, and the next one finds the machine that it left
      have hmachine : c.machine = s.afterCalls m (earlier ++ [last]) := by
        rw [afterCalls_concat, eq_of_leads_of_step_eq_none hafter hstep]
        rfl
      rw [Option.getD_none, hmachine]
      exact .carrying (earlier ++ [last]) request (hcalls.append (List.Sublist.refl _)) .refl
        (leads_perform _ _)

/-- A machine that is marked as pushing has a push of its own in progress, and a turn keeps it
so. -/
theorem Underway.guarded_turn {requests : List Request} (h : s.Underway m requests c)
    (hguarded : c.Guarded) (request : Request) : (s.turn request c).Guarded := by
  unfold MachineSetup.turn
  cases hstep : s.step c with
  | some d => exact guarded_shift hguarded (shift_of_step hstep)
  | none =>
    have hactive : c.active = [] := by
      cases h with
      | resting hrest => rw [hrest]; rfl
      | carrying earlier last _ _ hafter =>
        rw [eq_of_leads_of_step_eq_none hafter hstep]
        rfl
    exact Config.guarded_ofCall (Flight.eq_false (hactive ▸ hguarded.flight))

/-- What holds of a machine after any number of turns. -/
theorem Underway.takeTurns {requests : List Request} (h : s.Underway m requests c)
    (hguarded : m.pushing = false → c.Guarded) (more : List Request) :
    s.Underway m (requests ++ more) (s.takeTurns c more) ∧
      (m.pushing = false → (s.takeTurns c more).Guarded) := by
  induction more generalizing requests c with
  | nil =>
    rw [List.append_nil]
    exact ⟨h, hguarded⟩
  | cons request more ih =>
    have hnext := ih (h.turn request) fun hm => h.guarded_turn (hguarded hm) request
    rwa [List.append_assoc] at hnext

theorem guarded_resting (hm : m.pushing = false) : (Config.resting m).Guarded := by
  refine ⟨?_, fun hactive => absurd rfl hactive⟩
  have hidle : Flight [] false := .idle
  exact hm ▸ hidle

theorem getElem?_overlap {machines : List (Machine σ)} {i : Nat} (hm : machines[i]? = some m)
    (turns : List AddressedRequest) :
    (s.overlap machines turns)[i]? =
      some (s.takeTurns (.resting m) (requestsFor i turns)) := by
  unfold overlap
  rw [getElem?_changeAll, List.getElem?_map, hm]
  rfl

theorem overlap_alone (m : Machine σ) (requests : List Request) :
    s.overlap [m] (alone requests) = [s.takeTurns (.resting m) requests] :=
  changeAll_alone _ _ _

/-! ## Reentrancy -/

/-- A call is refused as reentrant only by a machine that is marked as pushing. -/
theorem pushing_of_refuse? {request : Request} {run : Run σ} {e : String}
    (h : refuse? request m = some run) (hout : run.outcome = .error (.reentrant e)) :
    m.pushing = true := by
  cases request with
  | start =>
    cases hl : m.lifecycle with
    | notStarted => simp [refuse?, hl] at h
    | started =>
      rw [refuse?_start_of_started hl] at h
      obtain rfl := Option.some.inj h
      cases hout
  | push event =>
    cases hl : m.lifecycle with
    | notStarted =>
      simp only [refuse?, hl, Option.some.injEq] at h
      subst h
      cases hout
    | started =>
      cases hp : m.pushing with
      | true => rfl
      | false => simp [refuse?, hl, hp] at h

/-- A push that is refused as reentrant finds another push to the same machine in progress. -/
theorem pushes_ne_nil_of_reentrant {d : Config σ} {event e : String} (h : c.Guarded)
    (hcontrol : c.control = .calling (.push event)) (hstep : s.step c = some d)
    (hback : d.control = .returning (.error (.reentrant e))) : c.pushes ≠ [] := by
  cases hrefuse : refuse? (.push event) c.machine with
  | none =>
    simp only [step, hcontrol, hrefuse, Option.some.injEq] at hstep
    subst hstep
    cases hback
  | some run =>
    simp only [step, hcontrol, hrefuse, Option.some.injEq] at hstep
    subst hstep
    have hpushing := pushing_of_refuse? hrefuse (Control.returning.inj hback)
    have hone : c.pushes.length = 1 := h.flight.pushing_iff.1 hpushing
    intro hnone
    rw [hnone] at hone
    cases hone

/-- A call from outside ends as reentrant for two reasons only: one of the hooks that it calls
pushes an event, or returns the error itself. -/
theorem reentrant_by_own_hook (hc : s.chart.WellFormed) {call : LifeCall σ}
    (hm : s.Moment [] call.before) {e : String}
    (hout : (call.run s).outcome = .error (.reentrant e)) :
    e ∈ pushedEvents (call.run s).trace ∨
      ∃ h ∈ call.steps s, h.returned s = .error (.reentrant e) := by
  obtain ⟨request, m⟩ := call
  have hcons : m.Consistent s.chart [] := hm.consistent hc
  unfold LifeCall.run at hout ⊢
  cases hrefuse : refuse? request m with
  | some run =>
    rw [perform_of_refuse? hrefuse] at hout
    obtain ⟨event, hevent⟩ := hcons.pushing_iff.1 (pushing_of_refuse? hrefuse hout)
    exact absurd hevent List.not_mem_nil
  | none =>
    cases request with
    | start =>
      rw [LifeCall.steps_start hrefuse]
      refine .inr ⟨_, List.mem_singleton_self _, ?_⟩
      rw [← hout]
      exact congrArg Run.outcome (perform_start_of_accept hrefuse).symm
    | push event =>
      have hidle := hcons.idle hrefuse
      obtain ⟨state, hstate⟩ := hidle.toPlaced.exists_name hidle.started
      cases ht : s.chart.resolve state event with
      | none =>
        have hfound : (s.currentName? m).bind (s.chart.resolve · event) = none := by
          rw [hstate]
          exact ht
        rw [perform_push_of_unresolved hrefuse hidle.rejected hfound] at hout
        exact absurd (Except.error.inj hout) (complaint_ne_reentrant event m e)
      | some t =>
        rw [LifeCall.steps_push hrefuse]
        rcases error_of_resolve hidle hstate ht hout with ⟨pushed, hpushed, heq⟩ | hreturned
        · obtain rfl := MachineError.reentrant.inj heq
          exact .inl hpushed
        · exact .inr hreturned

/-! ## Independence -/

/-- **Machines over one chart do not interfere**, whatever is done with the other machines and in
whatever condition they are.

Calls made one after the other: the calls to a machine are answered as if it were alone, and so is
everything that comes after them.  Calls whose steps are taken in turns: a machine is always where
it would be alone, on the way to the answer that it would give alone, and a push is refused as
reentrant only while another push to the same machine is in progress.  A call from outside to a
machine fails as reentrant only through the hooks that this call has called. -/
theorem machines_do_not_interfere {machines : List (Machine σ)} {i : Nat}
    (hm : machines[i]? = some m) :
    (∀ calls,
      (s.performAll machines calls).length = calls.length ∧
      reportsFor i calls (s.performAll machines calls) =
        s.performAll [m] (alone (requestsFor i calls)) ∧
      (s.fleetAfter machines calls)[i]? = some (s.afterCalls m (requestsFor i calls)) ∧
      ∀ more, s.performAll machines (calls ++ more) =
        s.performAll machines calls ++ s.performAll (s.fleetAfter machines calls) more) ∧
    (∀ turns, ∃ c, (s.overlap machines turns)[i]? = some c ∧
      s.overlap [m] (alone (requestsFor i turns)) = [c] ∧
      s.Underway m (requestsFor i turns) c ∧
      (m.pushing = false → ∀ event e d, c.control = .calling (.push event) → s.step c = some d →
        d.control = .returning (.error (.reentrant e)) → c.pushes ≠ [])) ∧
    (s.chart.IsDocument → s.Moment [] m → ∀ calls report,
      some report ∈ reportsFor i calls (s.performAll machines calls) →
      ∀ e, report.outcome = .error (.reentrant e) →
      ∃ call ∈ s.life m (requestsFor i calls), report = s.report (call.run s) ∧
        (e ∈ pushedEvents (call.run s).trace ∨
          ∃ h ∈ call.steps s, h.returned s = .error (.reentrant e))) := by
  refine ⟨?_, ?_, ?_⟩
  · intro calls
    exact ⟨length_performAll _ _, reportsFor_performAll hm calls, getElem?_fleetAfter hm calls,
      performAll_append _ _⟩
  · intro turns
    have hrest : s.Underway m [] (.resting m) := .resting rfl
    obtain ⟨hway, hguarded⟩ := hrest.takeTurns guarded_resting (requestsFor i turns)
    refine ⟨_, getElem?_overlap hm turns, overlap_alone m _, hway, ?_⟩
    intro hpushing event e d hcontrol hstep hback
    exact pushes_ne_nil_of_reentrant (hguarded hpushing) hcontrol hstep hback
  · intro hd hmoment calls report hreport e hout
    rw [reportsFor_performAll hm, performAll_alone] at hreport
    obtain ⟨call, hcall, hsame⟩ := List.mem_map.1 hreport
    obtain rfl := Option.some.inj hsame
    have hbefore := moment_of_mem_life hmoment hcall
    exact ⟨call, hcall, rfl, reentrant_by_own_hook hd.wellFormed hbefore hout⟩

/-- A kicked door in the middle of a push during which somebody kicked it. -/
def stuckDoor : Machine (List Nat) where
  lifecycle := .started
  current? := some 0
  pushing := true
  rejected? := some "Kick"
  memory := [1]

/-- Calls to a stuck door and to a new one. -/
def crossedCalls : List AddressedRequest :=
  [⟨1, .start⟩, ⟨0, .push "Open"⟩, ⟨1, .push "Kick"⟩, ⟨0, .start⟩, ⟨1, .push "Open"⟩,
    ⟨1, .push "Open"⟩]

/-- The new door opens at the second attempt, as it does alone. -/
theorem machines_do_not_interfere_doors :
    reportsFor 1 crossedCalls
        (kickedDoor.performAll [stuckDoor, .ofRules kickingHooks] crossedCalls) =
      kickedDoor.performAll [.ofRules kickingHooks]
        (alone [.start, .push "Kick", .push "Open", .push "Open"]) ∧
    (kickedDoor.fleetAfter [stuckDoor, .ofRules kickingHooks] crossedCalls)[1]? =
      some ⟨.started, some 1, false, none, [2]⟩ := by
  have hfound : [stuckDoor, .ofRules kickingHooks][1]? = some (.ofRules kickingHooks) := rfl
  obtain ⟨_, hreports, hmachine, _⟩ :=
    (machines_do_not_interfere (s := kickedDoor) hfound).1 crossedCalls
  exact ⟨hreports, hmachine⟩

end MachineSetup

end Statechart
