import Statechart.Proofs.Machine.Execution
import Statechart.Proofs.Source.Arms
set_option autoImplicit false

/-!
# Source: the dispatch and the machine

The arms of the generated source decide and do what a machine does.  `armFor?` looks an arm up in
the text as the generated code would: by state and event among the arms of the states, and by the
event alone among the arms of the base state.  It finds an arm exactly for the events that the chart
resolves, and the lines of the arm are what a machine performs (`Dispatches`).
-/

namespace Statechart.Source

/-! ## Readers -/

/-- The arms of the states. -/
def pushArms (text : String) : List Arm :=
  (matchArms? pushSignature "(state, event)" text).getD []

/-- The arms of the base state. -/
def fallbackArms (text : String) : List Arm :=
  (matchArms? fallbackSignature "event" text).getD []

/-- The first line of an arm for an event in a state. -/
def stateHead (id event : String) : String :=
  "(State::" ++ id ++ ", Event::" ++ event ++ ") => \x7b"

/-- The first line of an arm for an event in any state. -/
def anyHead (event : String) : String :=
  "Event::" ++ event ++ " => \x7b"

/-- The arm for an event in a state. -/
def armFor? (text id event : String) : Option Arm :=
  ((pushArms text).find? (·.head = stateHead id event)).or
    ((fallbackArms text).find? (·.head = anyHead event))

/-- The line that tells the logger of the event. -/
def eventLine : String := "self.log_event(event);"

/-- The line that tells the logger of an action. -/
def actionLine (action : String) : String := "self.log_action(\"" ++ action ++ "\");"

/-- The line that calls the hook of an action. -/
def hookLine (action : String) : String :=
  "self.after_hook(self.hooks." ++ hookName action ++ "(self))?;"

/-- The line that enters a state. -/
def enterLine (id : String) : String := "self.transition_to_state(State::" ++ id ++ ")"

/-- The lines that carry out a transition. -/
def transitionLines (debug : Bool) (t : Transition) : List String :=
  (if debug then [eventLine] else [])
    ++ t.actions.flatMap (fun action =>
      (if debug then [actionLine action] else []) ++ [hookLine action])
    ++ [enterLine t.target]

/-- The line of an arm that does what an entry of a trace of the push of `event` records.  The
logger is told of the state by the function that enters it. -/
def traceLine? (event : String) : TraceEntry → Option String
  | .debug (.event name) => if name = event then some eventLine else none
  | .debug (.action name) => some (actionLine name)
  | .debug (.state _) => none
  | .hook (.action name) _ => some (hookLine name)
  | .hook (.stateChange id) _ => some (enterLine id)
  | .inner _ _ => none

theorem map_text_dispatchSteps (debug : Bool) (t : Transition) :
    (dispatchSteps debug t).map DispatchStep.text = transitionLines debug t := by
  have haction : ∀ action, (actionSteps debug action).map DispatchStep.text =
      (if debug then [actionLine action] else []) ++ [hookLine action] := by
    intro action
    cases debug <;> rfl
  unfold dispatchSteps transitionLines
  rw [List.map_append, List.map_append, List.map_flatMap]
  simp only [haction]
  cases debug <;> rfl

/-! ## Heads -/

/-- An identifier ends where a comma follows. -/
theorem takeWhile_identifier {name : String} (h : IsIdentifier name) (rest : List Char) :
    (name.toList ++ ',' :: rest).takeWhile isIdentifierPart = name.toList := by
  rw [List.takeWhile_append_of_pos h.isIdentifierPart,
    List.takeWhile_cons_of_neg (by decide), List.append_nil]

/-- The heads of arms for different events or in different states differ. -/
theorem stateHead_inj {id event id' event' : String} (hid : IsIdentifier id)
    (hid' : IsIdentifier id') (h : stateHead id event = stateHead id' event') :
    id = id' ∧ event = event' := by
  have hsplit : ∀ id event : String, (stateHead id event).toList =
      "(State::".toList ++ (id.toList ++ ',' :: (" Event::".toList ++
        (event.toList ++ ") => \x7b".toList))) := by
    intro id event
    simp only [stateHead, String.toList_append, List.append_assoc]
    rfl
  have hrest := List.append_cancel_left
    ((hsplit id event).symm.trans ((congrArg String.toList h).trans (hsplit id' event')))
  have hids : id.toList = id'.toList := by
    have htake := congrArg (List.takeWhile isIdentifierPart) hrest
    rwa [takeWhile_identifier hid, takeWhile_identifier hid'] at htake
  rw [hids] at hrest
  have htail := (List.cons.inj (List.append_cancel_left hrest)).2
  exact ⟨String.toList_inj.1 hids,
    String.toList_inj.1 (List.append_cancel_right (List.append_cancel_left htail))⟩

theorem anyHead_inj {event event' : String} (h : anyHead event = anyHead event') :
    event = event' := by
  have hlist := congrArg String.toList h
  unfold anyHead at hlist
  simp only [String.toList_append] at hlist
  exact String.toList_inj.1 (List.append_cancel_left (List.append_cancel_right hlist))

theorem head_localRow (debug : Bool) (id : String) (t : Transition) :
    (Arm.ofRow debug (localPattern id t.event, t)).head = stateHead id t.event := by
  simp only [Arm.ofRow, localPattern, stateHead, String.append_assoc]
  rfl

theorem head_baseRow (debug : Bool) (t : Transition) :
    (Arm.ofRow debug (basePattern t.event, t)).head = anyHead t.event := rfl

/-! ## Rows and transitions -/

theorem heads_localRows (c : Chart) (debug : Bool) :
    ((localRows c).map (Arm.ofRow debug)).map (·.head) =
      c.states.flatMap fun s =>
        (firstPerEvent s.transitions).map fun t => stateHead s.id t.event := by
  simp only [localRows, List.map_flatMap, List.map_map, Function.comp_def, head_localRow]

/-- No head occurs twice among the arms of the states. -/
theorem nodup_localRows {c : Chart} (hc : c.WellFormed) (hn : UsableNames c) (debug : Bool) :
    (((localRows c).map (Arm.ofRow debug)).map (·.head)).Nodup := by
  have hident : ∀ s ∈ c.states, IsIdentifier s.id := fun s hs =>
    hn.state _ (List.mem_map_of_mem hs)
  rw [heads_localRows, List.Nodup, List.pairwise_flatMap]
  refine ⟨?_, ?_⟩
  · -- within a state the events differ
    intro s hs
    rw [List.pairwise_map]
    refine (List.pairwise_map.1 (nodup_firstPerEvent s.transitions)).imp ?_
    intro t t' hne heq
    exact hne (stateHead_inj (hident s hs) (hident s hs) heq).2
  · -- between two states the ids differ
    refine (List.pairwise_map.1 hc.nodup_ids).imp_of_mem ?_
    intro s s' hs hs' hne head hhead head' hhead' heq
    obtain ⟨t, _, rfl⟩ := List.mem_map.1 hhead
    obtain ⟨t', _, rfl⟩ := List.mem_map.1 hhead'
    exact hne (stateHead_inj (hident s hs) (hident s' hs') heq).1

/-- No head occurs twice among the arms of the base state. -/
theorem nodup_baseRows (base : State) (debug : Bool) :
    (((baseRows base).map (Arm.ofRow debug)).map (·.head)).Nodup := by
  simp only [baseRows, List.map_map, Function.comp_def, head_baseRow]
  rw [List.Nodup, List.pairwise_map]
  refine (List.pairwise_map.1 (nodup_firstPerEvent base.transitions)).imp ?_
  intro t t' hne heq
  exact hne (anyHead_inj heq)

/-- The arm that is found for an event in a state is that of the state's own transition. -/
theorem find?_localRows {c : Chart} (hc : c.WellFormed) (hn : UsableNames c) (debug : Bool)
    {id event : String} (hid : id ∈ c.stateIds) :
    ((localRows c).map (Arm.ofRow debug)).find? (·.head = stateHead id event) =
      ((c.state? id).bind (·.transitionFor? event)).map fun t =>
        Arm.ofRow debug (localPattern id t.event, t) := by
  refine Option.ext fun arm => ?_
  rw [Chart.find?_eq_some_iff_of_nodup (nodup_localRows hc hn debug), Option.map_eq_some_iff]
  constructor
  · rintro ⟨hmem, hhead⟩
    obtain ⟨row, hrow, rfl⟩ := List.mem_map.1 hmem
    obtain ⟨s, hs, hrow⟩ := List.mem_flatMap.1 hrow
    obtain ⟨t, ht, rfl⟩ := List.mem_map.1 hrow
    obtain ⟨rfl, rfl⟩ := stateHead_inj (hn.state _ (List.mem_map_of_mem hs)) (hn.state _ hid)
      ((head_localRow debug s.id t).symm.trans hhead)
    refine ⟨t, ?_, rfl⟩
    rw [hc.state?_eq_some_iff.2 ⟨hs, rfl⟩]
    exact mem_firstPerEvent.1 ht
  · rintro ⟨t, ht, rfl⟩
    obtain ⟨s, hfound, hown⟩ := Option.bind_eq_some_iff.1 ht
    obtain ⟨hs, rfl⟩ := hc.state?_eq_some_iff.1 hfound
    have hevent : t.event = event := by simpa using List.find?_some hown
    subst hevent
    refine ⟨?_, head_localRow debug s.id t⟩
    exact List.mem_map_of_mem (List.mem_flatMap.2
      ⟨s, hs, List.mem_map_of_mem (mem_firstPerEvent.2 hown)⟩)

/-- The arm that is found for an event is that of the base state's transition. -/
theorem find?_baseRows (base : State) (debug : Bool) (event : String) :
    ((baseRows base).map (Arm.ofRow debug)).find? (·.head = anyHead event) =
      (base.transitionFor? event).map fun t => Arm.ofRow debug (basePattern t.event, t) := by
  refine Option.ext fun arm => ?_
  rw [Chart.find?_eq_some_iff_of_nodup (nodup_baseRows base debug), Option.map_eq_some_iff]
  constructor
  · rintro ⟨hmem, hhead⟩
    obtain ⟨row, hrow, rfl⟩ := List.mem_map.1 hmem
    obtain ⟨t, ht, rfl⟩ := List.mem_map.1 hrow
    obtain rfl := anyHead_inj hhead
    exact ⟨t, mem_firstPerEvent.1 ht, rfl⟩
  · rintro ⟨t, ht, rfl⟩
    have hevent : t.event = event := by simpa using List.find?_some ht
    subst hevent
    exact ⟨List.mem_map_of_mem (List.mem_map_of_mem (mem_firstPerEvent.2 ht)), rfl⟩

/-- The arm for an event has the lines of the transition that the event resolves to. -/
theorem body_armFor? {c : Chart} (hc : c.WellFormed) (hn : UsableNames c) (options : SourceOptions)
    {id : String} (hid : id ∈ c.stateIds) (event : String) :
    (armFor? (renderLines (sourceLines c options)) id event).map (·.body) =
      (c.resolve id event).map (transitionLines c.debug) := by
  have hbody : ∀ row, (Arm.ofRow c.debug row).body = transitionLines c.debug row.2 := fun row =>
    map_text_dispatchSteps c.debug row.2
  obtain ⟨s, hs⟩ : ∃ s, c.state? id = some s := by
    obtain ⟨s, hs, hsid⟩ := List.mem_map.1 hid
    exact ⟨s, hc.state?_eq_some_iff.2 ⟨hs, hsid⟩⟩
  have hlocal : ((pushArms (renderLines (sourceLines c options))).find?
      (·.head = stateHead id event)).map (·.body) =
      (s.transitionFor? event).map (transitionLines c.debug) := by
    rw [pushArms, matchArms?_push hc hn, Option.getD_some, find?_localRows hc hn c.debug hid, hs,
      Option.bind_some, Option.map_map]
    simp only [Function.comp_def, hbody]
  have hbase : ((fallbackArms (renderLines (sourceLines c options))).find?
      (·.head = anyHead event)).map (·.body) =
      (c.baseState?.bind (·.transitionFor? event)).map (transitionLines c.debug) := by
    rw [fallbackArms, matchArms?_fallback hc hn]
    cases c.baseState? with
    | none => rfl
    | some base =>
      rw [Option.map_some, Option.getD_some, find?_baseRows, Option.bind_some, Option.map_map]
      simp only [Function.comp_def, hbody]
  unfold armFor? Chart.resolve
  rw [Option.map_or, hlocal, hbase, hs, Option.bind_some, Option.map_or]

/-! ## Lines and traces -/

/-- The lines of an arm that do what a hook call of a transition does. -/
def callLines (debug : Bool) : HookCall → List String
  | .action name => (if debug then [actionLine name] else []) ++ [hookLine name]
  | .stateChange id => [enterLine id]

theorem transitionLines_eq (debug : Bool) (t : Transition) :
    transitionLines debug t =
      (if debug then [eventLine] else []) ++ t.plan.flatMap (callLines debug) := by
  unfold transitionLines Transition.plan
  rw [List.flatMap_append, List.flatMap_map, List.append_assoc]
  rfl

/-- Calls that hooks make are no lines of an arm. -/
theorem filterMap_refused (event : String) (requests : List Request) :
    (requests.map Request.refused).filterMap (traceLine? event) = [] := by
  induction requests with
  | nil => rfl
  | cons request requests ih =>
    rw [List.map_cons, List.filterMap_cons]
    cases request <;> exact ih

end Statechart.Source

namespace Statechart.MachineSetup

open Source

variable {σ : Type} {s : MachineSetup σ}

/-- The entries of a hook call make the lines of that call. -/
theorem filterMap_trace_hook {h : HookStep σ} {requests : List Request} (event : String)
    (htrace : (h.run s).trace = .hook h.call (s.view h.found) :: requests.map Request.refused) :
    (h.run s).trace.filterMap (traceLine? event) = callLines false h.call := by
  have hinner := filterMap_refused event requests
  rw [htrace]
  cases h.call with
  | action name => exact congrArg (hookLine name :: ·) hinner
  | stateChange id => exact congrArg (enterLine id :: ·) hinner

/-- So do they with the notification in front, where the arm tells the logger. -/
theorem filterMap_notification {event : String} {call : HookCall} {rest : List TraceEntry}
    (hrest : rest.filterMap (traceLine? event) = callLines false call) :
    (.debug call.notification :: rest).filterMap (traceLine? event) = callLines true call := by
  cases call with
  | action name => exact congrArg (actionLine name :: ·) hrest
  | stateChange id => exact hrest

/-- Where an observer is told everything, the lines of a run are those of its hook calls. -/
theorem Executes.lines {event state : String} {t : Transition} {m : Machine σ} {run : Run σ}
    {steps : List (HookStep σ)} (h : s.Executes event state t m run steps)
    (hobserver : s.observer = true) :
    run.trace.filterMap (traceLine? event) =
      (if s.chart.debug then [eventLine] else [])
        ++ (steps.map (·.call)).flatMap (callLines s.chart.debug) := by
  have hcall : ∀ step ∈ steps,
      (step.run s).trace.filterMap (traceLine? event) = callLines false step.call := by
    intro step hstep
    obtain ⟨requests, hrequests⟩ := h.recorded step hstep
    exact filterMap_trace_hook event hrequests
  cases hdebug : s.chart.debug with
  | false =>
    rw [h.unobserved (by simp [hdebug]), List.filterMap_flatMap, List.flatMap_map, List.flatMap_def,
      List.map_congr_left hcall]
    rfl
  | true =>
    have hnotified : ∀ step ∈ steps, (.debug step.call.notification :: (step.run s).trace).filterMap
        (traceLine? event) = callLines true step.call := fun step hstep =>
      filterMap_notification (hcall step hstep)
    have hevent : traceLine? event (.debug (.event event)) = some eventLine := if_pos rfl
    rw [h.observed hdebug hobserver, List.filterMap_cons_some hevent, List.filterMap_flatMap,
      List.flatMap_map, List.flatMap_def, List.map_congr_left hnotified]
    rfl

/-- The lines of a push are the first lines of the transition that is taken, and all of them if the
push succeeds. -/
theorem Executes.lines_of_transition {event state : String} {t : Transition} {m : Machine σ}
    {run : Run σ} {steps : List (HookStep σ)} (h : s.Executes event state t m run steps)
    (hobserver : s.observer = true) :
    run.trace.filterMap (traceLine? event) <+: transitionLines s.chart.debug t ∧
      (run.outcome = .ok () →
        run.trace.filterMap (traceLine? event) = transitionLines s.chart.debug t) := by
  rw [h.lines hobserver, transitionLines_eq]
  refine ⟨?_, ?_⟩
  · obtain ⟨rest, hrest⟩ := h.isPrefix
    refine ⟨rest.flatMap (callLines s.chart.debug), ?_⟩
    rw [← hrest, List.flatMap_append, List.append_assoc]
  · intro hok
    rw [(h.succeeds.1 hok).1]

end Statechart.MachineSetup

namespace Statechart.Source

/-! ## Agreement -/

/-- A text dispatches events like the machines of a chart. -/
structure Dispatches (c : Chart) (text : String) : Prop where
  /-- the function that takes in an event has its match -/
  present : (matchArms? pushSignature "(state, event)" text).isSome
  /-- no head occurs twice among the arms of the states -/
  nodup_push : ((pushArms text).map (·.head)).Nodup
  /-- nor among the arms of the base state -/
  nodup_fallback : ((fallbackArms text).map (·.head)).Nodup
  /-- there is an arm for an event in a state exactly if the event resolves there -/
  arm_iff : ∀ id ∈ c.stateIds, ∀ event ∈ c.events,
    (armFor? text id event).isSome ↔ (c.resolve id event).isSome
  /-- its lines are those that carry out the transition -/
  body_eq : ∀ id ∈ c.stateIds, ∀ event ∈ c.events, ∀ t arm, c.resolve id event = some t →
    armFor? text id event = some arm → arm.body = transitionLines c.debug t
  /-- they are what a machine with an observer performs, up to where its push ends, whatever the
  hooks do -/
  performed : ∀ id ∈ c.stateIds, ∀ event ∈ c.events, ∀ t arm, c.resolve id event = some t →
    armFor? text id event = some arm →
    ∀ {σ : Type} (s : MachineSetup σ), s.chart = c → s.observer = true →
    ∀ {stack : List Request} {m : Machine σ}, s.Moment stack m → (∀ e, .push e ∉ stack) →
    s.currentName? m = some id →
      (s.perform (.push event) m).trace.filterMap (traceLine? event) <+: arm.body ∧
      ((s.perform (.push event) m).outcome = .ok () →
        (s.perform (.push event) m).trace.filterMap (traceLine? event) = arm.body)
  /-- a line that calls a hook tells which action it is for -/
  hook_inj : ∀ a ∈ c.actions, ∀ b ∈ c.actions, hookName a = hookName b → a = b

/-- What is generated is the text of a chart with usable names. -/
theorem generate_eq_ok {c : Chart} {options : SourceOptions} {text : String}
    (h : generate c options = .ok text) :
    UsableNames c ∧ text = renderLines (sourceLines c options) := by
  unfold generate at h
  split at h
  · exact nomatch h
  · rename_i hnames
    exact ⟨usableNames_of_checkNames hnames, (Except.ok.inj h).symm⟩

/-- **Generated dispatch agrees with the machine.** -/
theorem dispatches_of_generate {c : Chart} (hd : c.IsDocument) {options : SourceOptions}
    {text : String} (h : generate c options = .ok text) : Dispatches c text := by
  have hc := hd.wellFormed
  obtain ⟨hn, rfl⟩ := generate_eq_ok h
  have hpush := matchArms?_push hc hn options
  have hfallback := matchArms?_fallback hc hn options
  have hbody : ∀ id ∈ c.stateIds, ∀ event ∈ c.events, ∀ t arm, c.resolve id event = some t →
      armFor? (renderLines (sourceLines c options)) id event = some arm →
      arm.body = transitionLines c.debug t := by
    intro id hid event _ t arm ht harm
    have hmap := body_armFor? hc hn options hid event
    rw [harm, ht] at hmap
    exact Option.some.inj hmap
  refine {
    present := hpush ▸ rfl
    nodup_push := ?_
    nodup_fallback := ?_
    arm_iff := ?_
    body_eq := hbody
    performed := ?_
    hook_inj := hn.hook }
  · rw [pushArms, hpush]
    exact nodup_localRows hc hn c.debug
  · rw [fallbackArms, hfallback]
    cases c.baseState? with
    | none => exact List.nodup_nil
    | some base => exact nodup_baseRows base c.debug
  · intro id hid event _
    rw [← Option.isSome_map (f := (·.body)), body_armFor? hc hn options hid event,
      Option.isSome_map]
  · rintro id hid event hevent t arm ht harm σ s rfl hobserver stack m hm hidle hstate
    rw [hbody id hid event hevent t arm ht harm]
    exact (MachineSetup.executes_of_idle hc (hm.idle hd hidle hstate) hstate ht).lines_of_transition
      hobserver

/-- The source of the door dispatches events like the door. -/
theorem dispatches_door :
    generate .door {} = .ok (renderLines (sourceLines .door {})) ∧
      Dispatches .door (renderLines (sourceLines .door {})) :=
  have hgenerate : generate .door {} = .ok (renderLines (sourceLines .door {})) := rfl
  ⟨hgenerate, dispatches_of_generate Chart.isDocument_door hgenerate⟩

end Statechart.Source
