import Mathlib.Data.List.Basic
import Statechart.Chart.Builder
import Statechart.Proofs.Chart.Document
set_option autoImplicit false

/-!
# Building in one walk and reading states

`Document.ofElement` walks once over the elements and fills six accumulators on the way;
`Chart.ofElement` reads the states, and everything else is a view of them.  Each reader of the walk
has an equation: it fails like the reader of the states, and otherwise returns what that one returns
and leaves the notes that belong to it (`run_readTransition`, `run_readState`, `run_readChild`).

What holds of the accumulators is the invariant `Builder.Gathered`: after each state they are what the
states up to there show.  Together the two give `Document.ofElement_eq`: the document is the chart
with its views stored, and a rule that one of them finds broken is the one that the other finds.
-/

namespace Statechart

open Statechart.Markup

namespace Builder

/-! ## Readers as functions

A note that is taken of an element that later turns out to break a rule is lost with the builder: the
readers return the new builder only together with what they have read. -/

/-- What is noted of a transition. -/
def noteTransition (b : Builder) (t : Transition) : Builder :=
  ((b.noteEvent t.event).noteTarget t.target).noteActions t.actions

/-- What is noted of a state, from its beginning to its completion. -/
def noteState (b : Builder) (s : State) : Builder :=
  addState s (s.transitions.foldl noteTransition (b.declare s.id))

/-- Reading elements one after the other, where each is read as `read` says and noted by `note`. -/
theorem run_appendEach {α : Type} {reader : Element → Reader α} {read : Element → Except Violation α}
    {note : Builder → α → Builder}
    (h : ∀ e b, (reader e).run b = (read e).map fun x => (x, note b x))
    (start : List α) (es : List Element) (b : Builder) :
    (appendEach reader start es).run b =
      (es.mapM read).map fun found => (start ++ found, found.foldl note b) := by
  induction es generalizing start b with
  | nil =>
    rw [List.mapM_nil]
    show Except.ok (start, b) = Except.ok (start ++ [], b)
    rw [List.append_nil]
  | cons e es ih =>
    have hstep : (appendEach reader start (e :: es)).run b =
        (reader e).run b >>= fun found => (appendEach reader (start ++ [found.1]) es).run found.2 := by
      simp [appendEach]
    rw [hstep, h e b, List.mapM_cons]
    cases read e with
    | error violation => rfl
    | ok x =>
      show (appendEach reader (start ++ [x]) es).run (note b x) =
        Except.map _ (es.mapM read >>= fun found => pure (x :: found))
      rw [ih]
      cases es.mapM read with
      | error violation => rfl
      | ok found =>
        show Except.ok (start ++ [x] ++ found, found.foldl note (note b x)) = Except.ok _
        rw [List.append_assoc, List.singleton_append]
        rfl

/-- A reader that takes no notes. -/
theorem run_liftM {α : Type} (x : Except Violation α) (b : Builder) :
    (liftM x : Reader α).run b = x.map fun a => (a, b) := by
  cases x with
  | error violation => rfl
  | ok a => rfl

theorem run_readTransition (e : Element) (b : Builder) :
    (readTransition e).run b =
      (Transition.ofElement e).map fun t => (t, b.noteTransition t) := by
  unfold readTransition Transition.ofElement
  by_cases hevent : e.attr "event" = ""
  · rw [if_pos hevent, if_pos hevent]
    rfl
  rw [if_neg hevent, if_neg hevent]
  by_cases htarget : e.attr "target" = ""
  · rw [if_pos htarget, if_pos htarget]
    rfl
  rw [if_neg htarget, if_neg htarget]
  have hactions := run_appendEach (fun child b => run_liftM (readAction (e.attr "event") child) b)
    (attributeAction e) e.children
  simp only [StateT.run_bind, StateT.run_modify, pure_bind, hactions]
  cases e.children.mapM (readAction (e.attr "event")) with
  | error violation => rfl
  | ok nested =>
    simp only [Except.map, bind, Except.bind, pure, Except.pure, List.foldl_fixed]
    rfl

theorem run_readInState (id : String) (e : Element) (b : Builder) :
    (readInState id e).run b =
      (Statechart.readTransition id e).map fun t => (t, b.noteTransition t) := by
  unfold readInState Statechart.readTransition
  split
  · rfl
  · exact run_readTransition e b

theorem run_readState (e : Element) (b : Builder) :
    (readState e).run b = (State.ofElement b.declaredIds e).map fun s =>
      (s, s.transitions.foldl noteTransition (b.declare s.id)) := by
  unfold readState State.ofElement
  by_cases hid : e.attr "id" = ""
  · rw [if_pos hid, if_pos hid]
    rfl
  rw [if_neg hid, if_neg hid]
  by_cases hdeclared : e.attr "id" ∈ b.declaredIds
  · simp only [StateT.run_bind, StateT.run_get, pure_bind, if_pos hdeclared]
    rfl
  simp only [StateT.run_bind, StateT.run_get, pure_bind, if_neg hdeclared, StateT.run_modify,
    run_appendEach (run_readInState (e.attr "id"))]
  cases e.children.mapM (Statechart.readTransition (e.attr "id")) with
  | error violation => rfl
  | ok transitions => rfl

theorem run_readChild (e : Element) (b : Builder) :
    (readChild e).run b =
      if e.name ≠ Vocabulary.stateElement then .error (.strayInChart e.name)
      else (State.ofElement b.declaredIds e).map fun s => ((), b.noteState s) := by
  unfold readChild
  split
  · rfl
  · simp only [StateT.run_bind, run_readState]
    cases State.ofElement b.declaredIds e with
    | error violation => rfl
    | ok s => rfl

/-- A transition changes what is known of events, actions and targets. -/
theorem noteTransition_eq (b : Builder) (t : Transition) :
    b.noteTransition t = { b with
      events := Text.insertOrdered t.event b.events
      actions := t.actions.foldl (fun seen action => Text.insertOrdered action seen) b.actions
      targets := (b.noteTarget t.target).targets } := by
  unfold noteTransition noteActions noteTarget noteEvent
  by_cases hseen : t.target ∈ b.targets
  · rw [if_pos hseen, if_pos hseen]
  · rw [if_neg hseen, if_neg hseen]

/-- Transitions leave the states and their ids alone. -/
theorem frame_foldl_noteTransition (b : Builder) (ts : List Transition) :
    (ts.foldl noteTransition b).states = b.states ∧
      (ts.foldl noteTransition b).terminalIds = b.terminalIds ∧
      (ts.foldl noteTransition b).declaredIds = b.declaredIds := by
  induction ts generalizing b with
  | nil => exact ⟨rfl, rfl, rfl⟩
  | cons t ts ih =>
    rw [List.foldl_cons, noteTransition_eq]
    exact ih _

theorem declaredIds_noteState (b : Builder) (s : State) :
    (b.noteState s).declaredIds = b.declaredIds ++ [s.id] :=
  (frame_foldl_noteTransition _ _).2.2

/-- The walk over the children of the root reads their states. -/
theorem run_forM_readChild (es : List Element) (b : Builder) :
    (es.forM readChild).run b =
      (readStates b.declaredIds es).map fun states => ((), states.foldl noteState b) := by
  induction es generalizing b with
  | nil => rfl
  | cons e es ih =>
    have hstep : ((e :: es).forM readChild).run b =
        (readChild e).run b >>= fun found => (es.forM readChild).run found.2 := by
      simp [List.forM]
    rw [hstep, run_readChild, readStates]
    split
    · rfl
    cases State.ofElement b.declaredIds e with
    | error violation => rfl
    | ok s =>
      show (es.forM readChild).run (b.noteState s) =
        Except.map _ (readStates (b.declaredIds ++ [s.id]) es >>= fun states => pure (s :: states))
      rw [ih, declaredIds_noteState]
      cases readStates (b.declaredIds ++ [s.id]) es with
      | error violation => rfl
      | ok states => rfl

/-! ## The invariant of the walk -/

/-- The builder has noted some transitions: each of their events, actions and targets once. -/
structure Noted (ts : List Transition) (b : Builder) : Prop where
  events_ordered : b.events.Pairwise (· < ·)
  mem_events : ∀ event, event ∈ b.events ↔ ∃ t ∈ ts, t.event = event
  actions_ordered : b.actions.Pairwise (· < ·)
  mem_actions : ∀ action, action ∈ b.actions ↔ ∃ t ∈ ts, action ∈ t.actions
  nodup_targets : b.targets.Nodup
  /-- the first target of a kind is the first one that was seen -/
  find?_targets : ∀ p, b.targets.find? p = (ts.map (·.target)).find? p

/-- The builder has gathered what some states show. -/
structure Gathered (states : List State) (b : Builder) : Prop where
  states_eq : b.states = states
  terminalIds_eq : b.terminalIds = (states.filter (·.isTerminal)).map (·.id)
  declaredIds_eq : b.declaredIds = states.map (·.id)
  noted : b.Noted (states.flatMap (·.transitions))

theorem Noted.mem_targets {ts : List Transition} {b : Builder} (h : b.Noted ts) {target : String} :
    target ∈ b.targets ↔ ∃ t ∈ ts, t.target = target := by
  have hfound := congrArg Option.isSome (h.find?_targets (· = target))
  rw [Bool.eq_iff_iff] at hfound
  simpa using hfound

/-- Actions are noted in any order. -/
theorem mem_foldl_insertOrdered {x : String} {names seen : List String} :
    x ∈ names.foldl (fun seen name => Text.insertOrdered name seen) seen ↔ x ∈ seen ∨ x ∈ names := by
  induction names generalizing seen with
  | nil => simp
  | cons name names ih =>
    rw [List.foldl_cons, ih, Text.mem_insertOrdered, List.mem_cons]
    grind

theorem pairwise_foldl_insertOrdered {names seen : List String} (h : seen.Pairwise (· < ·)) :
    (names.foldl (fun seen name => Text.insertOrdered name seen) seen).Pairwise (· < ·) := by
  induction names generalizing seen with
  | nil => exact h
  | cons name names ih => exact ih (Text.pairwise_insertOrdered h)

/-- A target that was seen before is no first one. -/
theorem find?_noteTarget {b : Builder} {target : String} (p : String → Bool) :
    (b.noteTarget target).targets.find? p = (b.targets ++ [target]).find? p := by
  unfold noteTarget
  split
  · rename_i hseen
    rw [List.find?_append]
    cases hfound : b.targets.find? p with
    | some x => rfl
    | none =>
      have hnot : ¬ p target = true := List.find?_eq_none.1 hfound target hseen
      simp [hnot]
  · rfl

/-- **One transition.** -/
theorem Noted.noteTransition {ts : List Transition} {b : Builder} (h : b.Noted ts) (t : Transition) :
    (b.noteTransition t).Noted (ts ++ [t]) := by
  rw [noteTransition_eq]
  refine ⟨Text.pairwise_insertOrdered h.events_ordered, ?_,
    pairwise_foldl_insertOrdered h.actions_ordered, ?_, ?_, ?_⟩
  · intro event
    rw [Text.mem_insertOrdered, h.mem_events]
    grind
  · intro action
    rw [mem_foldl_insertOrdered, h.mem_actions]
    grind
  · unfold noteTarget
    split
    · exact h.nodup_targets
    · rename_i hnew
      simp only [List.nodup_append, h.nodup_targets]
      grind
  · intro p
    rw [find?_noteTarget, List.find?_append, h.find?_targets, List.map_append, List.find?_append]
    rfl

/-- **The transitions of a state.** -/
theorem Noted.foldl_noteTransition {ts : List Transition} {b : Builder} (h : b.Noted ts)
    (more : List Transition) : (more.foldl Builder.noteTransition b).Noted (ts ++ more) := by
  induction more generalizing ts b with
  | nil => simpa using h
  | cons t more ih =>
    have hnext := ih (h.noteTransition t)
    rwa [List.append_assoc, List.singleton_append] at hnext

/-- **One state.** -/
theorem Gathered.noteState {states : List State} {b : Builder} (h : b.Gathered states) (s : State) :
    (b.noteState s).Gathered (states ++ [s]) := by
  have hdeclare : (b.declare s.id).Noted (states.flatMap (·.transitions)) := { h.noted with }
  have hnoted := hdeclare.foldl_noteTransition s.transitions
  obtain ⟨hstates, hterminal, -⟩ := frame_foldl_noteTransition (b.declare s.id) s.transitions
  refine ⟨?_, ?_, ?_, ?_⟩
  · show (s.transitions.foldl Builder.noteTransition (b.declare s.id)).states ++ [s] = _
    rw [hstates, ← h.states_eq]
    rfl
  · show (if s.isTerminal then _ ++ [s.id] else _) = _
    rw [hterminal, List.filter_append, List.map_append, ← h.terminalIds_eq]
    split
    · rename_i hlast
      simp [hlast, declare]
    · rename_i hlast
      simp [hlast, declare]
  · rw [declaredIds_noteState, h.declaredIds_eq, List.map_append]
    rfl
  · rw [List.flatMap_append, List.flatMap_singleton]
    exact { hnoted with }

/-- **All states.** -/
theorem Gathered.foldl_noteState {states : List State} {b : Builder} (h : b.Gathered states)
    (more : List State) : (more.foldl Builder.noteState b).Gathered (states ++ more) := by
  induction more generalizing states b with
  | nil => simpa using h
  | cons s more ih =>
    have hnext := ih (h.noteState s)
    rwa [List.append_assoc, List.singleton_append] at hnext

/-- Nothing has been seen when the walk starts. -/
theorem gathered_nil : ({} : Builder).Gathered [] :=
  ⟨rfl, rfl, rfl, ⟨.nil, by simp, .nil, by simp, .nil, fun _ => rfl⟩⟩

end Builder

/-! ## Documents and charts -/

/-- A strictly increasing list is the ordered set of its members. -/
theorem Text.eq_orderedSet {set names : List String} (hset : set.Pairwise (· < ·))
    (hmem : ∀ name, name ∈ set ↔ name ∈ names) : set = Text.orderedSet names := by
  have hnodup {xs : List String} (h : xs.Pairwise (· < ·)) : xs.Nodup :=
    h.imp fun hlt => String.ne_of_lt hlt
  have hperm : List.Perm set (Text.orderedSet names) := by
    rw [List.perm_ext_iff_of_nodup (hnodup hset) (hnodup (pairwise_orderedSet names))]
    intro name
    rw [hmem, mem_orderedSet]
  exact hperm.eq_of_pairwise (fun _ _ _ _ hab hba => absurd hba (String.lt_asymm hab)) hset
    (pairwise_orderedSet names)

/-- What was noted of some transitions are the sets of their events, actions and targets. -/
theorem Builder.Noted.sets_eq {ts : List Transition} {b : Builder} (h : b.Noted ts) :
    b.events = Text.orderedSet (ts.map (·.event)) ∧
      b.actions = Text.orderedSet (ts.flatMap (·.actions)) ∧
      Text.orderedSet b.targets = Text.orderedSet (ts.map (·.target)) := by
  refine ⟨Text.eq_orderedSet h.events_ordered fun event => ?_,
    Text.eq_orderedSet h.actions_ordered fun action => ?_,
    Text.eq_orderedSet (Text.pairwise_orderedSet _) fun target => ?_⟩
  · rw [h.mem_events, List.mem_map]
  · rw [h.mem_actions, List.mem_flatMap]
  · rw [Text.mem_orderedSet, h.mem_targets, List.mem_map]

namespace Document

/-- A chart with its views stored. -/
def ofChart (c : Chart) : Document where
  className := c.className
  package? := c.package?
  initial := c.initial
  states := c.states
  basePosition? := c.base?.bind c.position?
  terminalIds := c.terminalStates.map (·.id)
  events := c.events
  actions := c.actions
  declaredIds := c.stateIds
  targets := c.targets
  debug := c.debug

theorem findBase_eq (root : Element) (states : List State) :
    findBase root states =
      if root.attr "base" ≠ "" ∧ root.attr "base" ∉ states.map (·.id) then
        .error (.undeclaredBase (root.attr "base"))
      else .ok ((if root.attr "base" = "" then none else some (root.attr "base")).bind
        fun id => states.findIdx? (·.id = id)) := by
  unfold findBase
  by_cases hempty : root.attr "base" = ""
  · simp [hempty]
  · cases hfound : states.findIdx? (·.id = root.attr "base") with
    | some position =>
      have hmem : root.attr "base" ∈ states.map (·.id) := by
        obtain ⟨hlt, hid, _⟩ := List.findIdx?_eq_some_iff_getElem.1 hfound
        exact List.mem_map.2 ⟨_, List.getElem_mem hlt, by simpa using hid⟩
      simp [hempty, hmem, hfound]
    | none =>
      have hnot : root.attr "base" ∉ states.map (·.id) := by
        intro hmem
        obtain ⟨s, hs, hid⟩ := List.mem_map.1 hmem
        simpa [hid] using List.findIdx?_eq_none_iff.1 hfound s hs
      simp [hempty, hnot]

/-- Two readers that check the same rule before they go on. -/
theorem ite_eq_map_ite {α β : Type} {f : α → β} {p : Prop} [Decidable p]
    {x y : Except Violation β} {x' y' : Except Violation α} (hbroken : x = x'.map f)
    (hkept : y = y'.map f) : (if p then x else y) = (if p then x' else y').map f := by
  split
  · exact hbroken
  · exact hkept

/-- **Refinement.**  The walk builds the document of the chart that the states give, or finds the same
rule broken. -/
theorem ofElement_eq (root : Element) :
    Document.ofElement root = (Chart.ofElement root).map ofChart := by
  unfold Document.ofElement Chart.ofElement
  refine ite_eq_map_ite rfl ?_
  cases Vocabulary.checkTree root with
  | error violation => rfl
  | ok _ =>
  simp only [bind, Except.bind]
  refine ite_eq_map_ite rfl (ite_eq_map_ite rfl (ite_eq_map_ite rfl ?_))
  rw [Builder.run_forM_readChild]
  cases readStates [] root.children with
  | error violation => rfl
  | ok states =>
  have hseen := Builder.gathered_nil.foldl_noteState states
  rw [List.nil_append] at hseen
  simp only [Except.map]
  generalize states.foldl Builder.noteState {} = seen at hseen
  have htargets : seen.targets.find? (· ∉ seen.declaredIds) =
      ((states.flatMap (·.transitions)).find? (·.target ∉ states.map (·.id))).map (·.target) := by
    rw [hseen.noted.find?_targets, List.find?_map, hseen.declaredIds_eq]
    rfl
  rw [findBase_eq, hseen.states_eq, htargets, hseen.declaredIds_eq]
  by_cases hbase : root.attr "base" ≠ "" ∧ root.attr "base" ∉ states.map (·.id)
  · rw [if_pos hbase, if_pos hbase]
    rfl
  rw [if_neg hbase, if_neg hbase]
  dsimp only
  refine ite_eq_map_ite rfl ?_
  cases (states.flatMap (·.transitions)).find? (·.target ∉ states.map (·.id)) with
  | some t => rfl
  | none =>
    obtain ⟨hevents, hactions, htargets⟩ := hseen.noted.sets_eq
    rw [hevents, hactions, htargets, hseen.terminalIds_eq]
    rfl

/-! ## Answers -/

/-- What a document stores and what a chart shows by its views give the same answers. -/
structure Agrees (d : Document) (c : Chart) : Prop where
  qualifiedName : d.qualifiedName = c.qualifiedName
  state? : ∀ id, d.state? id = c.state? id
  position? : ∀ id, d.position? id = c.position? id
  initialState? : d.initialState? = c.initialState?
  baseState? : d.baseState? = c.baseState?
  isBase : ∀ id, d.isBase id = c.isBase id
  terminalStates : d.terminalStates = c.terminalStates
  isTerminal : ∀ id, d.isTerminal id = c.isTerminal id
  declaredIds : d.declaredIds = c.stateIds
  sets : d.events = c.events ∧ d.actions = c.actions ∧ d.targets = c.targets
  resolve : ∀ id event, d.resolve id event = c.resolve id event

theorem baseState?_ofChart (c : Chart) : (ofChart c).baseState? = c.baseState? := by
  unfold Document.baseState? Chart.baseState? ofChart
  cases c.base? with
  | none => rfl
  | some id => exact List.find?_eq_bind_findIdx?_getElem?.symm

/-- No other state has the id of a terminal state. -/
theorem terminalStates_ofChart {c : Chart} (hc : c.WellFormed) :
    (ofChart c).terminalStates = c.terminalStates := by
  refine List.filter_congr fun s hs => ?_
  rw [Bool.eq_iff_iff, decide_eq_true_iff]
  constructor
  · intro hlisted
    obtain ⟨s', hs', hid⟩ := List.mem_map.1 hlisted
    obtain ⟨hmem, hterminal⟩ := List.mem_filter.1 hs'
    have hfound := hc.state?_eq_some_iff.2 ⟨hmem, hid⟩
    rw [hc.state?_eq_some_iff.2 ⟨hs, rfl⟩] at hfound
    rwa [Option.some.inj hfound]
  · intro hterminal
    exact List.mem_map_of_mem (List.mem_filter.2 ⟨hs, hterminal⟩)

theorem agrees_ofChart {c : Chart} (hc : c.WellFormed) : (ofChart c).Agrees c where
  qualifiedName := rfl
  state? _ := rfl
  position? _ := rfl
  initialState? := rfl
  baseState? := baseState?_ofChart c
  isBase _ := by
    unfold Document.isBase Chart.isBase
    rw [baseState?_ofChart]
  terminalStates := terminalStates_ofChart hc
  isTerminal _ := List.any_map
  declaredIds := rfl
  sets := ⟨rfl, rfl, rfl⟩
  resolve _ _ := by
    unfold Document.resolve Chart.resolve
    rw [baseState?_ofChart]
    rfl

end Document

end Statechart
