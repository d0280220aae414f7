import Statechart.Proofs.Source.Arms
import Statechart.Proofs.Source.Writer
import Statechart.Source.Emission
set_option autoImplicit false

/-!
# Source: calls that are paired by hand

`emitSource` opens and closes blocks by separate calls, and looks up the hook of an action in a table
that could lack it.  Here its calls are compared with those for the tree of code, function by
function: what each of them emits is what the writer is called for along the corresponding part of the
tree (`emitSource_eq`).  So every opening call is paired with a closing one, and no hook is missing.

For the arms of the dispatch the comparison holds for any table, failures included
(`emitArms_eq`); only after that the table is the one of the chart (`armsFrom_hookTable`).
-/

namespace Statechart.Source

/-! ## Calls for code -/

theorem Code.callsAll_lines {α : Type} (text : α → String) (xs : List α) :
    Code.callsAll (xs.map fun x => .line (text x)) = xs.map fun x => .line (text x) := by
  induction xs with
  | nil => exact Code.callsAll_nil
  | cons x xs ih =>
    rw [List.map_cons, Code.callsAll_cons, ih, Code.calls]
    rfl

/-- The calls for groups of code, with an empty line between one and the next. -/
def Code.callsSpaced : List (List Code) → List Call
  | [] => []
  | [group] => Code.callsAll group
  | group :: next :: rest => Code.callsAll group ++ .blank :: Code.callsSpaced (next :: rest)

theorem Code.callsAll_spaced (groups : List (List Code)) :
    Code.callsAll (spaced groups) = Code.callsSpaced groups := by
  induction groups with
  | nil => exact Code.callsAll_nil
  | cons group groups ih =>
    cases groups with
    | nil => exact congrArg Code.callsAll (List.append_nil group)
    | cons next rest =>
      have hspaced : spaced (group :: next :: rest) = group ++ .blank :: spaced (next :: rest) := rfl
      rw [hspaced, Code.callsAll_append, Code.callsAll_cons, ih, Code.calls, Code.callsSpaced]
      rfl

theorem Code.callsSpaced_append {groups more : List (List Code)} (h : groups ≠ [])
    (hmore : more ≠ []) :
    Code.callsSpaced (groups ++ more) =
      Code.callsSpaced groups ++ .blank :: Code.callsSpaced more := by
  induction groups with
  | nil => exact absurd rfl h
  | cons group groups ih =>
    cases groups with
    | nil =>
      cases more with
      | nil => exact absurd rfl hmore
      | cons next rest => rfl
    | cons next rest =>
      have hrest := ih (List.cons_ne_nil next rest)
      rw [List.cons_append] at hrest
      rw [List.cons_append, List.cons_append, Code.callsSpaced, hrest, Code.callsSpaced,
        List.append_assoc, List.cons_append]

/-- Packages are opened one after the other, and closed at the end. -/
theorem Code.calls_nest (names : List String) (code : Code) :
    (nest names code).calls =
      names.map (fun name => .opening ("pub mod " ++ name ++ " \x7b")) ++ code.calls
        ++ names.map (fun _ => .closing "\x7d") := by
  induction names with
  | nil => exact (List.append_nil _).symm
  | cons name names ih =>
    have hclosings : names.map (fun _ => Call.closing "\x7d") ++ [.closing "\x7d"] =
        .closing "\x7d" :: names.map (fun _ => Call.closing "\x7d") := by
      rw [List.map_const', ← List.replicate_succ', List.replicate_succ]
    have hnest : (nest (name :: names) code).calls =
        .opening ("pub mod " ++ name ++ " \x7b") ::
          ((nest names code).calls ++ [.closing "\x7d"]) := by
      rw [nest, List.foldr_cons, Code.calls, Code.callsAll_cons, Code.callsAll_nil, List.append_nil,
        String.append_empty]
      rfl
    rw [hnest, ih, List.append_assoc, List.append_assoc, hclosings, List.map_cons, List.map_cons,
      List.cons_append, List.cons_append, List.append_assoc]

/-! ## Declarations -/

section Declarations

variable {c : Chart} {names : Names} (hclass : names.className = c.className)

theorem callsAll_enumDeclaration (comment name : String) (variants : List String) :
    Code.callsAll (enumDeclaration comment name variants) =
      .line comment :: emitEnum name variants := by
  simp [enumDeclaration, emitEnum, Code.callsAll_cons, Code.callsAll_lines, Code.calls]

theorem calls_allAndName (name : String) (variants : List String) :
    (allVariants name variants).calls ++ .blank :: (nameFunction name variants).calls =
      emitAllAndName name variants := by
  have hpath : variantPath name = fun v => name ++ "::" ++ v := rfl
  simp [allVariants, nameFunction, hpath, emitAllAndName, Code.callsAll_cons,
    Code.callsAll_lines, Code.calls]

theorem calls_displayByName (name : String) : (displayByName name).calls = emitDisplay name := by
  simp [displayByName, emitDisplay, Code.callsAll_cons, Code.calls]

theorem callsAll_terminalFunction (c : Chart) :
    Code.callsAll (terminalFunction c) =
      [.line "/// True for states without outgoing transitions",
        .opening "pub fn is_terminal(self) -> bool \x7b",
        if (c.terminalStates.map fun s => "State::" ++ s.id).isEmpty then .line "false"
        else .line ("matches!(self, "
          ++ String.intercalate " | " (c.terminalStates.map fun s => "State::" ++ s.id) ++ ")"),
        .closing "\x7d"] := by
  have hpath : variantPath "State" = fun v => "State::" ++ v := rfl
  by_cases hnone : c.terminalStates = []
  · simp [terminalFunction, hpath, hnone, Code.callsAll_cons, Code.calls]
  · simp [terminalFunction, hpath, hnone, Code.callsAll_cons, Code.calls]

include hclass

theorem callsSpaced_stateItems : Code.callsSpaced (stateItems c) = emitStates c names := by
  simp [stateItems, emitStates, ← calls_allAndName, callsAll_enumDeclaration,
    callsAll_terminalFunction, calls_displayByName, Code.callsSpaced, Code.callsAll_spaced,
    Code.callsAll_cons, Code.calls, Chart.stateIds, hclass]

theorem callsSpaced_eventItems : Code.callsSpaced (eventItems c) = emitEvents c names := by
  simp [eventItems, emitEvents, eventFromName, ← calls_allAndName, callsAll_enumDeclaration,
    calls_displayByName, Code.callsSpaced, Code.callsAll_spaced, Code.callsAll_cons, Code.calls,
    hclass]

omit hclass in
theorem callsSpaced_errorItems : Code.callsSpaced errorItems = emitErrors := by
  simp [errorItems, emitErrors, Code.callsSpaced, Code.callsAll_cons, Code.calls]

/-- The hooks of the actions of a chart. -/
def hookTable (c : Chart) : List (String × String) :=
  c.actions.map fun action => (action, hookName action)

theorem callsSpaced_traitItems (hhooks : names.hooks = hookTable c) :
    Code.callsSpaced (traitItems c) = emitTraits names := by
  have hsignature : hookSignature c.className = fun action => Code.line ("fn " ++ hookName action
      ++ "(&self, fsm: &" ++ c.className ++ "<Self>) -> Result<(), StateError>;") := rfl
  simp [traitItems, hooksTrait, hsignature, emitTraits, hookTable, Code.callsSpaced,
    Code.callsAll_cons, Code.callsAll_lines, Code.calls, hclass, hhooks]

end Declarations

/-! ## Hooks from a table -/

/-- The text of a step, with its hook from a table. -/
def DispatchStep.textFrom (table : List (String × String)) : DispatchStep → Except String String
  | .callHook action => do
    let hook ← findHook table action
    return "self.after_hook(self.hooks." ++ hook ++ "(self))?;"
  | step => .ok step.text

/-- An arm for a transition, with its hooks from a table. -/
def armFrom (table : List (String × String)) (debug : Bool) (pattern : String) (t : Transition) :
    Except String Code := do
  let texts ← (dispatchSteps debug t).mapM (·.textFrom table)
  return .block (pattern ++ " =>") (texts.map .line)

/-- The arms of a state, each with the pattern for its event. -/
def armsFrom (table : List (String × String)) (debug : Bool) (pattern : String → String)
    (state : State) : Except String (List Code) :=
  (firstPerEvent state.transitions).mapM fun t => armFrom table debug (pattern t.event) t

/-- The calls for actions are those for their steps. -/
theorem emitActions_eq (table : List (String × String)) (debug : Bool) (actions : List String) :
    emitActions table debug actions =
      ((actions.flatMap (actionSteps debug)).mapM (DispatchStep.textFrom table)).map
        (·.map .line) := by
  induction actions with
  | nil => rfl
  | cons action actions ih =>
    have hsteps : (actionSteps debug action).mapM (DispatchStep.textFrom table) =
        (findHook table action).map fun hook =>
          (if debug then ["self.log_action(\"" ++ action ++ "\");"] else [])
            ++ ["self.after_hook(self.hooks." ++ hook ++ "(self))?;"] := by
      cases debug with
      | false =>
        show (findHook table action >>= _) >>= _ = _
        cases findHook table action <;> rfl
      | true =>
        show (findHook table action >>= _) >>= _ = _
        cases findHook table action <;> rfl
    rw [emitActions, List.flatMap_cons, List.mapM_append, hsteps, ih]
    cases findHook table action with
    | error message => rfl
    | ok hook =>
      cases (actions.flatMap (actionSteps debug)).mapM (DispatchStep.textFrom table) with
      | error message => rfl
      | ok texts => cases debug <;> rfl

theorem emitBody_eq (table : List (String × String)) (debug : Bool) (t : Transition) :
    emitBody table debug t =
      ((dispatchSteps debug t).mapM (DispatchStep.textFrom table)).map (·.map .line) := by
  have hlast : [DispatchStep.enter t.target].mapM (DispatchStep.textFrom table) =
      .ok ["self.transition_to_state(State::" ++ t.target ++ ")"] := rfl
  have hfirst : (if debug then [DispatchStep.logEvent] else []).mapM (DispatchStep.textFrom table) =
      .ok (if debug then ["self.log_event(event);"] else []) := by
    cases debug <;> rfl
  rw [emitBody, dispatchSteps, List.mapM_append, List.mapM_append, hfirst, hlast, emitActions_eq]
  cases (t.actions.flatMap (actionSteps debug)).mapM (DispatchStep.textFrom table) with
  | error message => rfl
  | ok texts => cases debug <;> simp [Except.map, bind, Except.bind, pure, Except.pure]

/-- The calls for the arms are those for the code of the arms, whatever the table holds.  The events
that were seen before are those that `firstPerEvent` leaves out. -/
theorem emitArms_eq (table : List (String × String)) (debug : Bool) (pattern : String → String)
    {head : String → String} (hhead : ∀ event, head event = pattern event ++ " =>" ++ " \x7b")
    (seen : List String) (ts : List Transition) :
    emitArms table debug head seen ts =
      (((firstPerEvent ts).filter (·.event ∉ seen)).mapM fun t =>
        armFrom table debug (pattern t.event) t).map Code.callsAll := by
  induction ts generalizing seen with
  | nil => rfl
  | cons t ts ih =>
    rw [emitArms, firstPerEvent]
    by_cases hseen : t.event ∈ seen
    · have hrest : (t :: (firstPerEvent ts).filter (·.event ≠ t.event)).filter (·.event ∉ seen) =
          (firstPerEvent ts).filter (·.event ∉ seen) := by
        rw [List.filter_cons_of_neg (by simpa using hseen), List.filter_filter]
        refine List.filter_congr fun t' _ => ?_
        by_cases heq : t'.event = t.event
        · simp [heq, hseen]
        · simp [heq]
      rw [if_pos hseen, ih, hrest]
    · have hrest : (t :: (firstPerEvent ts).filter (·.event ≠ t.event)).filter (·.event ∉ seen) =
          t :: (firstPerEvent ts).filter (·.event ∉ t.event :: seen) := by
        rw [List.filter_cons_of_pos (by simpa using hseen), List.filter_filter]
        refine congrArg (t :: ·) (List.filter_congr fun t' _ => ?_)
        by_cases heq : t'.event = t.event
        · simp [heq]
        · simp [heq]
      rw [if_neg hseen, hrest, List.mapM_cons, ih, emitBody_eq, armFrom]
      cases (dispatchSteps debug t).mapM (DispatchStep.textFrom table) with
      | error message => rfl
      | ok texts =>
        cases ((firstPerEvent ts).filter (·.event ∉ t.event :: seen)).mapM fun t =>
            armFrom table debug (pattern t.event) t with
        | error message => rfl
        | ok arms =>
          have hlines : Code.callsAll (texts.map Code.line) = texts.map Call.line :=
            Code.callsAll_lines id texts
          simp [Except.map, bind, Except.bind, pure, Except.pure, Code.callsAll_cons, Code.calls,
            hlines, hhead]

/-- The loop over the transitions of a state starts with no event seen. -/
theorem emitArms_nil_eq (table : List (String × String)) (debug : Bool) (pattern : String → String)
    {head : String → String} (hhead : ∀ event, head event = pattern event ++ " =>" ++ " \x7b")
    (s : State) :
    emitArms table debug head [] s.transitions =
      (armsFrom table debug pattern s).map Code.callsAll := by
  have hall : (firstPerEvent s.transitions).filter (·.event ∉ ([] : List String)) =
      firstPerEvent s.transitions := by
    rw [List.filter_eq_self]
    exact fun _ _ => decide_eq_true List.not_mem_nil
  rw [emitArms_eq table debug pattern hhead, hall]
  rfl

theorem lookup_hookTable {c : Chart} {action hook : String} :
    (hookTable c).lookup action = some hook ↔ action ∈ c.actions ∧ hook = hookName action := by
  unfold hookTable
  induction c.actions with
  | nil => simp
  | cons first rest ih =>
    rw [List.map_cons, List.lookup_cons, List.mem_cons]
    by_cases h : action = first
    · subst h
      simp [eq_comm]
    · rw [beq_eq_false_iff_ne.2 h, ih]
      simp [h]

/-- The hook of an action of a transition is always found. -/
theorem textFrom_hookTable {c : Chart} {t : Transition} (ht : t ∈ c.transitions)
    {step : DispatchStep} (hstep : step ∈ dispatchSteps c.debug t) :
    step.textFrom (hookTable c) = .ok step.text := by
  cases step with
  | callHook action =>
    have haction : action ∈ t.actions := by
      unfold dispatchSteps actionSteps at hstep
      cases c.debug <;> simpa using hstep
    have hfound : (hookTable c).lookup action = some (hookName action) :=
      lookup_hookTable.2 ⟨Chart.mem_actions.2 ⟨t, ht, haction⟩, rfl⟩
    simp only [DispatchStep.textFrom, findHook, hfound]
    rfl
  | logEvent => rfl
  | logAction action => rfl
  | enter target => rfl

theorem armFrom_hookTable {c : Chart} {t : Transition} (ht : t ∈ c.transitions) (pattern : String) :
    armFrom (hookTable c) c.debug pattern t = .ok (arm c.debug pattern t) := by
  have htexts : (dispatchSteps c.debug t).mapM (·.textFrom (hookTable c)) =
      .ok ((dispatchSteps c.debug t).map DispatchStep.text) :=
    mapM_eq_pure fun step hstep => textFrom_hookTable ht hstep
  have hlines : (dispatchSteps c.debug t).map (fun step => Code.line step.text) =
      ((dispatchSteps c.debug t).map DispatchStep.text).map Code.line := List.map_map.symm
  unfold armFrom arm
  rw [htexts, hlines]
  rfl

/-- The arms of a state can be written with the hooks from the table, and they are those of the
generated source. -/
theorem armsFrom_hookTable {c : Chart} {state : State} (hstate : state ∈ c.states)
    (pattern : String → String) :
    armsFrom (hookTable c) c.debug pattern state =
      .ok ((firstPerEvent state.transitions).map fun t => arm c.debug (pattern t.event) t) := by
  refine mapM_eq_pure fun t ht => armFrom_hookTable ?_ _
  exact Chart.mem_transitions.2
    ⟨state, hstate, List.mem_of_find?_eq_some (mem_firstPerEvent.1 ht)⟩

/-! ## Dispatch -/

/-- The calls for several lists of code. -/
theorem Code.flatten_map_callsAll {α : Type} (codes : α → List Code) (xs : List α) :
    (xs.map fun x => Code.callsAll (codes x)).flatten = Code.callsAll (xs.flatMap codes) := by
  induction xs with
  | nil => exact Code.callsAll_nil.symm
  | cons x xs ih =>
    rw [List.map_cons, List.flatten_cons, ih, List.flatMap_cons, Code.callsAll_append]

theorem emitPush_hookTable (c : Chart) :
    emitPush c (hookTable c) = .ok (pushFunction c).calls := by
  have hhead : ∀ id event : String, "(State::" ++ id ++ ", Event::" ++ event ++ ") => \x7b" =
      localPattern id event ++ " =>" ++ " \x7b" := by
    intro id event
    simp [localPattern, String.append_assoc]
  have harms : (c.states.mapM fun s => emitArms (hookTable c) c.debug
      (fun event => "(State::" ++ s.id ++ ", Event::" ++ event ++ ") => \x7b") [] s.transitions) =
        .ok (c.states.map fun s => Code.callsAll (localArms c.debug s)) := by
    refine mapM_eq_pure fun s hs => ?_
    rw [emitArms_nil_eq _ _ (localPattern s.id) (hhead s.id), armsFrom_hookTable hs]
    rfl
  rw [emitPush, harms]
  simp [pushFunction, Code.flatten_map_callsAll, Code.callsAll_cons, Code.callsAll_append,
    Code.calls, pure, Except.pure, bind, Except.bind]

theorem emitBase_hookTable (c : Chart) :
    emitBase c (hookTable c) = .ok (baseFunction c).calls := by
  have hhead : ∀ event : String, "Event::" ++ event ++ " => \x7b" =
      basePattern event ++ " =>" ++ " \x7b" := by
    intro event
    simp [basePattern, String.append_assoc]
  rw [emitBase, emitBaseArms, baseFunction]
  cases hbase : c.baseState? with
  | none => simp [Code.callsAll_cons, Code.calls, pure, Except.pure, bind, Except.bind]
  | some base =>
    have harms : emitArms (hookTable c) c.debug (fun event => "Event::" ++ event ++ " => \x7b") []
        base.transitions = .ok (Code.callsAll (baseArms c.debug base)) := by
      rw [emitArms_nil_eq _ _ basePattern hhead,
        armsFrom_hookTable (Chart.mem_states_of_baseState? hbase)]
      rfl
    simp [harms, Code.callsAll_cons, Code.callsAll_append, Code.calls, pure, Except.pure, bind,
      Except.bind]

/-! ## The machine -/

section Machine

variable {c : Chart} {names : Names} (hclass : names.className = c.className)

include hclass

theorem emitMachineFront_eq :
    emitMachineFront c names =
      (machineStruct c.className).calls ++ [.blank, .opening ("impl<H: Hooks> " ++ c.className
        ++ "<H>" ++ " \x7b")]
        ++ Code.callsSpaced (accessFunctions c ++ [[startFunction]]) ++ [.blank] := by
  have hgeneric : ∀ front : String, front ++ "<H>" ++ " \x7b" = front ++ "<H> \x7b" :=
    fun front => String.append_assoc
  simp [machineStruct, accessFunctions, startFunction, emitMachineFront, hgeneric,
    Code.callsSpaced, Code.callsAll_cons, Code.calls, hclass]

omit hclass in
theorem emitMachineBack_eq (debug : Bool) :
    emitMachineBack debug =
      Code.callsSpaced ([[enterFunction debug], [afterHookFunction]]
        ++ if debug then logFunctions else []) ++ [.closing "\x7d"] := by
  cases debug with
  | false =>
    simp [enterFunction, afterHookFunction, emitMachineBack, Code.callsSpaced, Code.callsAll_cons,
      Code.calls]
  | true =>
    simp [enterFunction, afterHookFunction, logFunctions, logFunction, emitMachineBack, emitLog,
      Code.callsSpaced, Code.callsAll_cons, Code.calls]

omit hclass in
/-- The calls for the machine, with the functions that take in events between the others. -/
theorem callsSpaced_machineItems (c : Chart) :
    Code.callsSpaced (machineItems c) =
      (machineStruct c.className).calls ++ [.blank, .opening ("impl<H: Hooks> " ++ c.className
        ++ "<H>" ++ " \x7b")]
        ++ (Code.callsSpaced (accessFunctions c ++ [[startFunction]]) ++ .blank ::
          Code.callsSpaced ([pushFunction c] :: [baseFunction c] :: ([[enterFunction c.debug],
            [afterHookFunction]] ++ if c.debug then logFunctions else [])))
        ++ [.closing "\x7d"] := by
  have hsplit : accessFunctions c ++ [[startFunction], [pushFunction c], [baseFunction c],
      [enterFunction c.debug], [afterHookFunction]] ++ (if c.debug then logFunctions else []) =
        (accessFunctions c ++ [[startFunction]]) ++ ([pushFunction c] :: [baseFunction c] ::
          ([[enterFunction c.debug], [afterHookFunction]]
            ++ if c.debug then logFunctions else [])) := by
    simp
  rw [← Code.callsSpaced_append (List.append_ne_nil_of_right_ne_nil _ (List.cons_ne_nil _ _))
    (List.cons_ne_nil _ _), ← hsplit, machineItems]
  simp only [Code.callsSpaced, Code.callsAll_cons, Code.callsAll_nil, Code.callsAll_spaced,
    Code.calls, String.append_empty, List.append_nil, List.append_assoc, List.cons_append,
    List.nil_append]

theorem emitMachine_eq (hhooks : names.hooks = hookTable c) :
    emitMachine c names = .ok (Code.callsSpaced (machineItems c)) := by
  rw [emitMachine, hhooks, emitPush_hookTable, emitBase_hookTable, emitMachineFront_eq hclass,
    emitMachineBack_eq, callsSpaced_machineItems]
  simp [Code.callsSpaced, Code.callsAll_cons, pure, Except.pure, bind, Except.bind]

end Machine

/-! ## Names -/

/-- The owner of a hook is the first action that it belongs to. -/
theorem lookup_owners (hook : String) (actions : List String) :
    (actions.map fun action => (hookName action, action)).lookup hook =
      actions.find? (hookName · = hook) := by
  induction actions with
  | nil => rfl
  | cons action actions ih =>
    rw [List.map_cons, List.lookup_cons, List.find?_cons, ih]
    by_cases h : hookName action = hook
    · simp [h]
    · rw [beq_eq_false_iff_ne.2 (Ne.symm h), decide_eq_false h]

theorem resolveHooks_eq (earlier actions : List String) :
    resolveHooks (earlier.map fun action => (action, hookName action))
        (earlier.map fun action => (hookName action, action)) actions =
      (checkActions earlier actions).map fun _ =>
        (earlier ++ actions).map fun action => (action, hookName action) := by
  induction actions generalizing earlier with
  | nil =>
    rw [List.append_nil]
    rfl
  | cons action actions ih =>
    rw [resolveHooks, checkActions]
    cases checkIdentifier "action" action with
    | error fault => rfl
    | ok _ =>
      have hrest := ih (earlier ++ [action])
      rw [List.map_append, List.map_append, List.append_assoc] at hrest
      dsimp only
      rw [show "on_action_" ++ snakeCase action = hookName action from rfl, lookup_owners]
      cases earlier.find? (hookName · = hookName action) with
      | some other => rfl
      | none => exact hrest

/-- Names are resolved exactly if they pass the checks. -/
theorem resolveNames_eq (c : Chart) (options : SourceOptions) :
    resolveNames c options = (checkNames c options).map fun _ => {
      className := c.className
      module := moduleName c.className
      packages := packages c options
      hooks := hookTable c } := by
  have hhooks := resolveHooks_eq [] c.actions
  rw [List.nil_append] at hhooks
  unfold resolveNames checkNames
  rw [show resolveHooks [] [] c.actions = _ from hhooks]
  cases checkClass c.className with
  | error fault => rfl
  | ok _ =>
  cases (packages c options).forM (checkIdentifier "package segment") with
  | error fault => rfl
  | ok _ =>
  cases c.stateIds.forM (checkIdentifier "state") with
  | error fault => rfl
  | ok _ =>
  cases c.events.forM (checkIdentifier "event") with
  | error fault => rfl
  | ok _ =>
  cases checkActions [] c.actions with
  | error fault => rfl
  | ok _ => rfl

/-! ## The source -/

/-- The calls for a module, part by part. -/
theorem calls_moduleCode (c : Chart) :
    (moduleCode c).calls =
      [.opening ("pub mod " ++ moduleName c.className ++ " \x7b")] ++ Code.callsSpaced preambleItems
        ++ .blank :: Code.callsSpaced (stateItems c) ++ .blank :: Code.callsSpaced (eventItems c)
        ++ .blank :: Code.callsSpaced errorItems ++ .blank :: Code.callsSpaced (traitItems c)
        ++ .blank :: Code.callsSpaced (machineItems c) ++ [.closing "\x7d"] := by
  have hpreamble : preambleItems ≠ [] := List.cons_ne_nil _ _
  have hstates : stateItems c ≠ [] := List.cons_ne_nil _ _
  have hevents : eventItems c ≠ [] := List.cons_ne_nil _ _
  have herrors : errorItems ≠ [] := List.cons_ne_nil _ _
  have htraits : traitItems c ≠ [] := List.cons_ne_nil _ _
  have hmachine : machineItems c ≠ [] := List.cons_ne_nil _ _
  have happend {groups more : List (List Code)} (h : more ≠ []) : groups ++ more ≠ [] :=
    List.append_ne_nil_of_right_ne_nil groups h
  rw [moduleCode, Code.calls, Code.callsAll_spaced, String.append_empty,
    Code.callsSpaced_append (happend htraits) hmachine,
    Code.callsSpaced_append (happend herrors) htraits,
    Code.callsSpaced_append (happend hevents) herrors,
    Code.callsSpaced_append (happend hstates) hevents,
    Code.callsSpaced_append hpreamble hstates]
  simp

/-- **Emission along the tree.**  Emission fails with the first fault of a name, and never because of
a hook.  Else its calls are those for the tree of code. -/
theorem emitSource_eq (c : Chart) (options : SourceOptions) :
    emitSource c options =
      match checkNames c options with
      | .error fault => .error fault.message
      | .ok () => .ok (sourceCalls c options) := by
  rw [emitSource, resolveNames_eq]
  cases checkNames c options with
  | error fault => rfl
  | ok _ =>
    have hpreamble : Code.callsSpaced preambleItems =
        [.line "#![allow(dead_code, non_camel_case_types)]", .blank, .line "use std::cell::Cell;",
          .line "use std::fmt;", .line "use std::str::FromStr;"] := by
      simp [preambleItems, Code.callsSpaced, Code.callsAll_cons, Code.calls]
    show emitWith c options _ = _
    rw [emitWith, emitMachine_eq rfl rfl, ← callsSpaced_stateItems rfl, ← callsSpaced_eventItems rfl,
      ← callsSpaced_errorItems, ← callsSpaced_traitItems rfl rfl, sourceCalls, Code.calls_nest,
      calls_moduleCode, hpreamble]
    simp [bind, Except.bind, pure, Except.pure]

/-- What is emitted is written as the generated source, and emission fails exactly if generation
does. -/
theorem map_write_emitSource (c : Chart) (options : SourceOptions) :
    (emitSource c options).map (fun calls => (write calls).text) =
      (generate c options).mapError NameFault.message := by
  rw [emitSource_eq, generate]
  cases checkNames c options with
  | error fault => rfl
  | ok _ => exact congrArg (fun w : Writer => Except.ok w.text) (write_sourceCalls c options)

end Statechart.Source
