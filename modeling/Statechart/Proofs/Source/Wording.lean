import Statechart.Proofs.Source.Dispatch
import Statechart.Proofs.Source.Legible
set_option autoImplicit false

/-!
# Source: what generated lines are made of

A line of generated code either holds no name, and then the module of a chart without names has it
too, or it is one of a few kinds of lines with names in fixed places (`NamedLine`).  `ModelledOn`
says so of code, given the code that the chart without names has in the same place; it goes along
the tree of the code, block by block.
-/

namespace Statechart.Source

/-! ## Lines with names -/

/-- What stands before and after the name in lines with one name. -/
def nameFrames : List (String × String) :=
  [("pub mod ", " \x7b"),
    ("/// States of `", "`, in declaration order"),
    ("/// Events accepted by `", "`"),
    ("/// Side effects supplied by the owner of a `", "`"),
    ("", ","),
    ("fn on_state_change(&self, fsm: &", "<Self>, state: State) -> Result<(), StateError>;"),
    ("pub struct ", "<H> \x7b"),
    ("impl<H: Hooks> ", "<H> \x7b"),
    ("pub const INITIAL_STATE: State = State::", ";"),
    ("Event::", " => \x7b"),
    ("self.log_action(\"", "\");"),
    ("self.transition_to_state(State::", ")")]

/-- What stands before and after the name in lines with one name in snake case. -/
def snakeFrames : List (String × String) :=
  [("pub mod ", " \x7b"), ("self.after_hook(self.hooks.on_action_", "(self))?;")]

/-- The enumerations of a module. -/
def enumerations : List String :=
  ["State", "Event"]

/-- Lines of generated code with names in them.  All names in them are in `P`, and stand between
fixed words as they are or in snake case. -/
inductive NamedLine (P : String → Prop) : String → Prop where
  | name {front back name : String} (hframe : (front, back) ∈ nameFrames) (h : P name) :
    NamedLine P (front ++ name ++ back)
  | snake {front back name : String} (hframe : (front, back) ∈ snakeFrames) (h : P name) :
    NamedLine P (front ++ snakeCase name ++ back)
  /-- the name of a variant -/
  | variant {enumeration name : String} (henum : enumeration ∈ enumerations) (h : P name) :
    NamedLine P (enumeration ++ "::" ++ name ++ " => \"" ++ name ++ "\",")
  /-- the array of all variants -/
  | variants {enumeration : String} {names : List String} (henum : enumeration ∈ enumerations)
    (h : ∀ name ∈ names, P name) :
    NamedLine P ("pub const ALL: [" ++ enumeration ++ "; " ++ toString names.length ++ "] = ["
      ++ String.intercalate ", " (names.map fun name => enumeration ++ "::" ++ name) ++ "];")
  /-- the test for terminal states -/
  | terminal {names : List String} (h : ∀ name ∈ names, P name) :
    NamedLine P ("matches!(self, "
      ++ String.intercalate " | " (names.map fun name => "State::" ++ name) ++ ")")
  /-- the first line of an arm for an event in a state -/
  | pattern {id event : String} (hid : P id) (hevent : P event) :
    NamedLine P ("(State::" ++ id ++ ", Event::" ++ event ++ ") => \x7b")
  /-- the signature of a hook -/
  | hook {action className : String} (haction : P action) (hclass : P className) :
    NamedLine P ("fn on_action_" ++ snakeCase action ++ "(&self, fsm: &" ++ className
      ++ "<Self>) -> Result<(), StateError>;")

/-! ## Lines without names -/

/-- A chart without names: one state with one transition, which may serve all states. -/
def blankChart (base? : Option String) : Chart where
  className := ""
  package? := none
  initial := ""
  base? := base?
  debug := true
  states := [⟨"", [⟨"", "", []⟩]⟩]

/-- The lines of the module of a chart without names, with a base state and without. -/
def fixedLines : List String :=
  Code.textsAll [moduleCode (blankChart (some "")), baseFunction (blankChart none)]

/-- Every line of the code is empty or stands for a missing base state, or is a line of the code it
is modelled on, or is a line with names. -/
def ModelledOn (P : String → Prop) (model codes : List Code) : Prop :=
  ∀ text ∈ Code.textsAll codes,
    text ∈ Code.textsAll [.blank, baseFunction (blankChart none)] ∨
      text ∈ Code.textsAll model ∨ NamedLine P text

theorem textsAll_subset {codes codes' : List Code} (h : codes ⊆ codes') :
    Code.textsAll codes ⊆ Code.textsAll codes' := by
  intro text htext
  rw [Code.textsAll_eq_flatMap] at htext ⊢
  obtain ⟨code, hcode, htext⟩ := List.mem_flatMap.1 htext
  exact List.mem_flatMap.2 ⟨code, h hcode, htext⟩

/-- All groups are there with empty lines between them. -/
theorem mem_spaced_of_mem {groups : List (List Code)} {code : Code} (h : code ∈ groups.flatten) :
    code ∈ spaced groups := by
  unfold spaced
  induction groups with
  | nil => exact absurd h List.not_mem_nil
  | cons group groups ih =>
    rw [List.flatten_cons, List.mem_append] at h
    cases groups with
    | nil =>
      rw [List.intercalate_singleton]
      exact h.resolve_right List.not_mem_nil
    | cons next groups =>
      rw [List.intercalate_cons_cons, List.append_assoc, List.mem_append, List.mem_append]
      exact h.imp_right fun hrest => .inr (ih hrest)

namespace ModelledOn

variable {P : String → Prop} {model codes : List Code}

theorem of_subset (h : codes ⊆ model) : ModelledOn P model codes := fun _ htext =>
  .inr (.inl (textsAll_subset h htext))

theorem refl (codes : List Code) : ModelledOn P codes codes :=
  of_subset (List.Subset.refl codes)

theorem nil : ModelledOn P model [] :=
  of_subset (List.nil_subset model)

theorem mono {model' : List Code} (h : ModelledOn P model codes) (hmodel : model ⊆ model') :
    ModelledOn P model' codes := fun text htext =>
  (h text htext).imp_right (Or.imp_left fun hmem => textsAll_subset hmodel hmem)

/-- Pieces of code are modelled on their models one after the other. -/
theorem append {model' codes' : List Code} (h : ModelledOn P model codes)
    (h' : ModelledOn P model' codes') : ModelledOn P (model ++ model') (codes ++ codes') := by
  intro text htext
  rw [Code.textsAll_append] at htext
  rcases List.mem_append.1 htext with htext | htext
  · exact h.mono (List.subset_append_left _ _) text htext
  · exact h'.mono (List.subset_append_right _ _) text htext

theorem cons {code code' : Code} {codes' : List Code} (h : ModelledOn P [code'] [code])
    (hrest : ModelledOn P model codes') : ModelledOn P (code' :: model) (code :: codes') :=
  append h hrest

theorem line {text : String} (h : NamedLine P text) : ModelledOn P model [.line text] := by
  intro text' htext
  rw [Code.textsAll_cons, Code.textsAll_nil, Code.texts, List.append_nil,
    List.mem_singleton] at htext
  exact .inr (.inr (htext ▸ h))

theorem lines {names : List String} {f : String → String}
    (h : ∀ name ∈ names, NamedLine P (f name)) :
    ModelledOn P model (names.map fun name => .line (f name)) := by
  induction names with
  | nil => exact nil
  | cons name names ih =>
    have hrest := ih fun next hnext => h next (List.mem_cons_of_mem _ hnext)
    intro text htext
    rw [List.map_cons, Code.textsAll_cons, List.mem_append] at htext
    rcases htext with hname | htext
    · exact line (h name List.mem_cons_self) text (by simpa using hname)
    · exact hrest text htext

/-- Code is modelled on a block if it is modelled on the body. -/
theorem enclosed {head : String} {body : List Code} (h : ModelledOn P body codes) :
    ModelledOn P [.block head body] codes := fun text htext =>
  (h text htext).imp_right (Or.imp_left fun hmem => by
    rw [Code.textsAll_cons, Code.textsAll_nil, List.append_nil, Code.texts]
    exact List.mem_cons_of_mem _ (List.mem_append_left _ hmem))

/-- What is true of the first line of a block and of its body is true of the block, since the
closing brace is the same everywhere. -/
theorem wrap {head : String} {body : List Code}
    (hhead : head ++ " \x7b" ∈ Code.textsAll model ∨ NamedLine P (head ++ " \x7b"))
    (hclose : "\x7d" ∈ Code.textsAll model) (hbody : ModelledOn P model body) :
    ModelledOn P model [.block head body] := by
  intro text htext
  rw [Code.textsAll_cons, Code.textsAll_nil, List.append_nil, Code.texts, List.mem_cons,
    List.mem_append, List.mem_singleton] at htext
  rcases htext with rfl | htext | rfl
  · exact .inr hhead
  · exact hbody text htext
  · exact .inr (.inl hclose)

theorem brace_mem_block (head : String) (body : List Code) :
    "\x7d" ∈ Code.textsAll [.block head body] := by
  rw [Code.textsAll_cons, Code.textsAll_nil, List.append_nil, Code.texts]
  exact List.mem_cons_of_mem _ (List.mem_append_right _ List.mem_cons_self)

/-- A block is modelled on a block if its first line is the same or has names, and its body is
modelled on the body. -/
theorem block {head head' : String} {body body' : List Code}
    (hhead : head = head' ∨ NamedLine P (head ++ " \x7b")) (hbody : ModelledOn P body' body) :
    ModelledOn P [.block head' body'] [.block head body] := by
  refine wrap (hhead.imp_left ?_) (brace_mem_block head' body') hbody.enclosed
  rintro rfl
  rw [Code.textsAll_cons, Code.texts]
  exact List.mem_cons_self

theorem spaced {models groups : List (List Code)}
    (h : ModelledOn P models.flatten groups.flatten) :
    ModelledOn P (Source.spaced models) (Source.spaced groups) := by
  have hmono : ModelledOn P (Source.spaced models) groups.flatten :=
    h.mono fun _ hcode => mem_spaced_of_mem hcode
  intro text htext
  rw [Code.textsAll_eq_flatMap] at htext
  obtain ⟨code, hcode, htext⟩ := List.mem_flatMap.1 htext
  rcases mem_spaced hcode with rfl | hcode
  · exact .inl (List.mem_append_left _ htext)
  · refine hmono text ?_
    rw [Code.textsAll_eq_flatMap]
    exact List.mem_flatMap.2 ⟨code, hcode, htext⟩

end ModelledOn

/-! ## The items of a module -/

/-- All names of a chart are in `P`. -/
structure NamesIn (P : String → Prop) (c : Chart) : Prop where
  className : P c.className
  state : ∀ id ∈ c.stateIds, P id
  event : ∀ event ∈ c.events, P event
  action : ∀ action ∈ c.actions, P action

/-- Words before a hook are words before the action in snake case. -/
theorem append_hookName {front words : String} (h : front ++ "on_action_" = words)
    (action : String) : front ++ hookName action = words ++ snakeCase action := by
  subst h
  exact String.append_assoc.symm

namespace NamedLine

variable {P : String → Prop}

theorem listed {name : String} (h : P name) : NamedLine P (name ++ ",") := by
  have hline : NamedLine P ("" ++ name ++ ",") := .name (by simp [nameFrames]) h
  rwa [String.empty_append] at hline

theorem signature {action className : String} (haction : P action) (hclass : P className) :
    NamedLine P ("fn " ++ hookName action ++ "(&self, fsm: &" ++ className
      ++ "<Self>) -> Result<(), StateError>;") := by
  have hwords : "fn " ++ "on_action_" = "fn on_action_" := by decide
  rw [append_hookName hwords action]
  exact .hook haction hclass

theorem struct {className : String} (h : P className) :
    NamedLine P ("pub struct " ++ className ++ "<H>" ++ " \x7b") := by
  have hback : "<H>" ++ " \x7b" = "<H> \x7b" := by decide
  rw [String.append_assoc, hback]
  exact .name (by simp [nameFrames]) h

theorem implementation {className : String} (h : P className) :
    NamedLine P ("impl<H: Hooks> " ++ className ++ "<H>" ++ " \x7b") := by
  have hback : "<H>" ++ " \x7b" = "<H> \x7b" := by decide
  rw [String.append_assoc, hback]
  exact .name (by simp [nameFrames]) h

/-- What an arm does is said with names, except for the note of the event. -/
theorem of_mem_dispatchSteps {c : Chart} (hc : c.WellFormed) (hn : NamesIn P c) {t : Transition}
    (ht : t ∈ c.transitions) {debug : Bool} {step : DispatchStep}
    (hstep : step ∈ dispatchSteps debug t) :
    step = .logEvent ∨ NamedLine P step.text := by
  have haction : ∀ action ∈ t.actions, P action := fun action hmem =>
    hn.action action (Chart.mem_actions.2 ⟨t, ht, hmem⟩)
  unfold dispatchSteps actionSteps at hstep
  cases step with
  | logEvent => exact .inl rfl
  | logAction action =>
    have hmem : action ∈ t.actions := by
      cases debug <;> simp at hstep
      exact hstep
    exact .inr (.name (by simp [nameFrames]) (haction action hmem))
  | callHook action =>
    have hmem : action ∈ t.actions := by
      cases debug <;> simpa using hstep
    have hwords : "self.after_hook(self.hooks." ++ "on_action_" =
        "self.after_hook(self.hooks.on_action_" := by decide
    have htext : DispatchStep.text (.callHook action) =
        "self.after_hook(self.hooks.on_action_" ++ snakeCase action ++ "(self))?;" :=
      congrArg (· ++ "(self))?;") (append_hookName hwords action)
    rw [htext]
    exact .inr (.snake (by simp [snakeFrames]) (haction action hmem))
  | enter target =>
    have htarget : target = t.target := by
      cases debug <;> simpa using hstep
    rw [htarget]
    exact .inr (.name (by simp [nameFrames]) (hn.state _ (hc.target_mem t ht)))

end NamedLine

section Items

variable {P : String → Prop}

theorem modelledOn_enumDeclaration {comment comment' name : String}
    {variants variants' : List String} (hcomment : NamedLine P comment) (h : ∀ v ∈ variants, P v) :
    ModelledOn P (enumDeclaration comment' name variants')
      (enumDeclaration comment name variants) :=
  .cons (.line hcomment) (.cons (.refl _)
    (.block (.inl rfl) (.lines fun v hv => .listed (h v hv))))

theorem modelledOn_nameFunction {name : String} (hname : name ∈ enumerations)
    {variants variants' : List String} (h : ∀ v ∈ variants, P v) :
    ModelledOn P [nameFunction name variants'] [nameFunction name variants] :=
  .block (.inl rfl) (.block (.inl rfl) (.lines fun v hv => .variant hname (h v hv)))

theorem modelledOn_allVariants {name : String} (hname : name ∈ enumerations) {model : List Code}
    {variants : List String} (h : ∀ v ∈ variants, P v) :
    ModelledOn P model [allVariants name variants] :=
  .line (.variants hname h)

variable {c : Chart} (hn : NamesIn P c)

include hn

theorem modelledOn_terminalFunction :
    ModelledOn P (terminalFunction (blankChart (some ""))) (terminalFunction c) := by
  refine .cons (.refl _) (.block (.inl rfl) ?_)
  by_cases hnone : (c.terminalStates.map fun s => variantPath "State" s.id).isEmpty = true
  · rw [if_pos hnone]
    exact .refl _
  · have hterminal : ∀ id ∈ c.terminalStates.map (·.id), P id := by
      intro id hid
      obtain ⟨s, hs, rfl⟩ := List.mem_map.1 hid
      exact hn.state _ (List.mem_map_of_mem (List.mem_filter.1 hs).1)
    have hline := NamedLine.terminal hterminal
    rw [List.map_map] at hline
    rw [if_neg hnone]
    exact .line hline

theorem modelledOn_stateItems :
    ModelledOn P (stateItems (blankChart (some ""))).flatten (stateItems c).flatten := by
  have hname : "State" ∈ enumerations := List.mem_cons_self
  have hcomment : NamedLine P ("/// States of `" ++ c.className ++ "`, in declaration order") :=
    .name (by simp [nameFrames]) hn.className
  have hfunctions : ModelledOn P (stateFunctions (blankChart (some ""))).flatten
      (stateFunctions c).flatten :=
    .cons (modelledOn_allVariants hname hn.state) (.cons (modelledOn_nameFunction hname hn.state)
      ((modelledOn_terminalFunction hn).append .nil))
  exact (modelledOn_enumDeclaration hcomment hn.state).append
    (.cons (.block (.inl rfl) (.spaced hfunctions)) (.refl _))

theorem modelledOn_eventItems :
    ModelledOn P (eventItems (blankChart (some ""))).flatten (eventItems c).flatten := by
  have hname : "Event" ∈ enumerations := List.mem_cons_of_mem _ List.mem_cons_self
  have hcomment : NamedLine P ("/// Events accepted by `" ++ c.className ++ "`") :=
    .name (by simp [nameFrames]) hn.className
  have hfunctions : ModelledOn P (eventFunctions (blankChart (some ""))).flatten
      (eventFunctions c).flatten :=
    .cons (modelledOn_allVariants hname hn.event)
      (.cons (modelledOn_nameFunction hname hn.event) .nil)
  exact (modelledOn_enumDeclaration hcomment hn.event).append
    (.cons (.block (.inl rfl) (.spaced hfunctions)) (.refl _))

theorem modelledOn_hooksTrait :
    ModelledOn P (hooksTrait (blankChart (some ""))) (hooksTrait c) := by
  refine .cons (.line (.name (by simp [nameFrames]) hn.className)) (.block (.inl rfl) ?_)
  exact .cons (.line (.name (by simp [nameFrames]) hn.className))
    (.lines fun action haction => .signature (hn.action action haction) hn.className)

theorem modelledOn_traitItems :
    ModelledOn P (traitItems (blankChart (some ""))).flatten (traitItems c).flatten :=
  .cons (.refl _) (.cons (.refl _) ((modelledOn_hooksTrait hn).append (.refl _)))

/-! ## The machine -/

/-- The arms of rows are modelled on an arm without names. -/
theorem modelledOn_rowArms (hc : c.WellFormed) {rows : List (String × Transition)}
    (hrows : ∀ row ∈ rows, NamedLine P (row.1 ++ " => \x7b") ∧ row.2 ∈ c.transitions)
    (pattern : String) :
    ModelledOn P [arm true pattern ⟨"", "", []⟩] (rowArms c.debug rows) := by
  have hmodel : "self.log_event(event);" ∈ Code.textsAll [arm true pattern ⟨"", "", []⟩] ∧
      "\x7d" ∈ Code.textsAll [arm true pattern ⟨"", "", []⟩] := by
    rw [Code.textsAll_cons, Code.textsAll_nil, List.append_nil, texts_arm]
    exact ⟨List.mem_cons_of_mem _ (List.mem_append_left _ (List.mem_map.2
        ⟨.logEvent, List.mem_cons_self, rfl⟩)),
      List.mem_cons_of_mem _ (List.mem_append_right _ List.mem_cons_self)⟩
  intro text htext
  rw [rowArms, Code.textsAll_eq_flatMap, List.flatMap_map, List.mem_flatMap] at htext
  obtain ⟨row, hrow, htext⟩ := htext
  obtain ⟨hpattern, ht⟩ := hrows row hrow
  rw [texts_arm, List.mem_cons, List.mem_append, List.mem_map, List.mem_singleton] at htext
  rcases htext with rfl | ⟨step, hstep, rfl⟩ | rfl
  · exact .inr (.inr hpattern)
  · rcases NamedLine.of_mem_dispatchSteps hc hn ht hstep with rfl | hnamed
    · exact .inr (.inl hmodel.1)
    · exact .inr (.inr hnamed)
  · exact .inr (.inl hmodel.2)

theorem modelledOn_pushFunction (hc : c.WellFormed) :
    ModelledOn P [pushFunction (blankChart (some ""))] [pushFunction c] := by
  have hrows : ∀ row ∈ localRows c,
      NamedLine P (row.1 ++ " => \x7b") ∧ row.2 ∈ c.transitions := by
    intro row hrow
    obtain ⟨s, hs, hrow⟩ := List.mem_flatMap.1 hrow
    obtain ⟨t, ht, rfl⟩ := List.mem_map.1 hrow
    have htmem : t ∈ c.transitions :=
      Chart.mem_transitions.2 ⟨s, hs, List.mem_of_find?_eq_some (mem_firstPerEvent.1 ht)⟩
    have hwords : ")" ++ " => \x7b" = ") => \x7b" := by decide
    have hhead : localPattern s.id t.event ++ " => \x7b" =
        "(State::" ++ s.id ++ ", Event::" ++ t.event ++ ") => \x7b" :=
      String.append_assoc.trans (congrArg _ hwords)
    refine ⟨?_, htmem⟩
    rw [hhead]
    exact .pattern (hn.state _ (List.mem_map_of_mem hs))
      (hn.event _ (Chart.mem_events.2 ⟨t, htmem, rfl⟩))
  have harms := modelledOn_rowArms hn hc hrows (localPattern "" "")
  rw [← flatMap_localArms] at harms
  exact .block (.inl rfl) (.cons (.refl _) (.cons (.refl _) (.cons (.refl _) (.cons (.refl _)
    (.cons (.refl _) (.block (.inl rfl) (harms.append (.refl _))))))))

theorem modelledOn_baseFunction (hc : c.WellFormed) :
    ModelledOn P [baseFunction (blankChart (some ""))] [baseFunction c] := by
  cases hbase : c.baseState? with
  | none =>
    -- the function has no arms then, and the module that is the model has another one
    have hsame : baseFunction c = baseFunction (blankChart none) := by
      unfold baseFunction
      rw [hbase]
      rfl
    intro text htext
    rw [hsame] at htext
    exact .inl (List.mem_append_right _ htext)
  | some base =>
    have hmem := Chart.mem_states_of_baseState? hbase
    have hrows : ∀ row ∈ baseRows base,
        NamedLine P (row.1 ++ " => \x7b") ∧ row.2 ∈ c.transitions := by
      intro row hrow
      obtain ⟨t, ht, rfl⟩ := List.mem_map.1 hrow
      have htmem : t ∈ c.transitions :=
        Chart.mem_transitions.2 ⟨base, hmem, List.mem_of_find?_eq_some (mem_firstPerEvent.1 ht)⟩
      exact ⟨.name (by simp [nameFrames]) (hn.event _ (Chart.mem_events.2 ⟨t, htmem, rfl⟩)), htmem⟩
    have harms := modelledOn_rowArms hn hc hrows (basePattern "")
    rw [← baseArms_eq] at harms
    unfold baseFunction
    rw [hbase]
    exact .block (.inl rfl) (.block (.inl rfl) (harms.append (.refl _)))

omit hn in
theorem modelledOn_enterFunction (debug : Bool) :
    ModelledOn P [enterFunction true] [enterFunction debug] := by
  cases debug with
  | true => exact .refl _
  | false =>
    refine .block (.inl rfl) (.of_subset ?_)
    intro code hcode
    rcases List.mem_cons.1 hcode with rfl | hcode
    · exact List.mem_cons_self
    · exact List.mem_cons_of_mem _ (List.mem_cons_of_mem _ hcode)

theorem modelledOn_machineItems (hc : c.WellFormed) :
    ModelledOn P (machineItems (blankChart (some ""))).flatten (machineItems c).flatten := by
  have haccess : ModelledOn P (accessFunctions (blankChart (some ""))).flatten
      (accessFunctions c).flatten :=
    .cons (.line (.name (by simp [nameFrames]) (hn.state _ hc.initial_mem))) (.refl _)
  have hfunctions := haccess.append (.cons (.refl [startFunction])
    (.cons (modelledOn_pushFunction hn hc) (.cons (modelledOn_baseFunction hn hc)
      (.cons (modelledOn_enterFunction c.debug) (.refl [afterHookFunction])))))
  have hlog : ModelledOn P logFunctions.flatten (if c.debug then logFunctions else []).flatten := by
    cases c.debug with
    | true => exact .refl _
    | false => exact .nil
  have hbody := hfunctions.append hlog
  refine .cons (.block (.inr (.struct hn.className)) (.refl _))
    (.cons (.block (.inr (.implementation hn.className)) (.spaced ?_)) .nil)
  simpa [blankChart] using hbody

/-- **The module of a chart** is modelled on that of a chart without names. -/
theorem modelledOn_moduleCode (hc : c.WellFormed) :
    ModelledOn P [moduleCode (blankChart (some ""))] [moduleCode c] := by
  refine .block (.inr (.snake (by simp [snakeFrames]) hn.className)) (.spaced ?_)
  simp only [List.flatten_append]
  exact (((((ModelledOn.refl _).append (modelledOn_stateItems hn)).append
    (modelledOn_eventItems hn)).append (.refl _)).append (modelledOn_traitItems hn)).append
      (modelledOn_machineItems hn hc)

/-- The packages around the module add lines with their names. -/
theorem modelledOn_nest (hc : c.WellFormed) {names : List String}
    (hnames : ∀ name ∈ names, P name) :
    ModelledOn P [moduleCode (blankChart (some ""))] [nest names (moduleCode c)] := by
  induction names with
  | nil => exact modelledOn_moduleCode hn hc
  | cons name names ih =>
    have hhead : NamedLine P ("pub mod " ++ name ++ " \x7b") :=
      .name (by simp [nameFrames]) (hnames name List.mem_cons_self)
    -- the model stays the same on the way inwards: it has no packages
    refine .wrap (.inr hhead) (ModelledOn.brace_mem_block _ _) (ih fun next hnext => ?_)
    exact hnames next (List.mem_cons_of_mem _ hnext)

end Items

/-! ## ASCII -/

/-- There are only ASCII characters in the text. -/
def Ascii (text : String) : Prop :=
  ∀ ch ∈ text.toList, ch.toNat < 128

/-- Fixed words are checked by their bytes. -/
theorem ascii_of_bytesOf {text : String} (h : (bytesOf text).all (·.toNat < 128) = true) :
    Ascii text := by
  intro ch hch
  apply Classical.byContradiction
  intro hlarge
  have hnot : ¬ ch.val.toNat ≤ 127 := fun hle => hlarge (Nat.lt_succ_of_le hle)
  obtain ⟨byte, hbyte⟩ := List.exists_mem_of_ne_nil _ String.utf8EncodeChar_ne_nil
  have hhigh := high_of_mem_utf8EncodeChar hnot byte hbyte
  have hmem : byte ∈ bytesOf text := by
    rw [bytesOf_eq]
    exact List.mem_flatMap.2 ⟨ch, hch, hbyte⟩
  have hlow := of_decide_eq_true (List.all_eq_true.1 h byte hmem)
  omega

theorem ascii_append {front back : String} (hfront : Ascii front) (hback : Ascii back) :
    Ascii (front ++ back) := by
  intro ch hch
  rw [String.toList_append, List.mem_append] at hch
  exact hch.elim (hfront ch) (hback ch)

theorem ascii_intercalate {separator : String} {texts : List String} (hseparator : Ascii separator)
    (h : ∀ text ∈ texts, Ascii text) : Ascii (String.intercalate separator texts) := by
  intro ch hch
  obtain hch | ⟨text, htext, hch⟩ := mem_intercalate hch
  · exact hseparator ch hch
  · exact h text htext ch hch

/-- The characters of identifiers are ASCII characters. -/
theorem lt_of_isIdentifierPart {ch : Char} (h : isIdentifierPart ch = true) : ch.toNat < 128 := by
  have hbelow : ∀ last : Char, last.toNat < 128 → ch.val ≤ last.val → ch.toNat < 128 :=
    fun last hlast hle => Nat.lt_of_le_of_lt (UInt32.le_iff_toNat_le.1 hle) hlast
  rcases Bool.or_eq_true_iff.1 h with halphanum | hunderscore
  · rcases Bool.or_eq_true_iff.1 halphanum with halpha | hdigit
    · rcases Bool.or_eq_true_iff.1 halpha with hupper | hlower
      · have hcase : ch.val ≥ 'A'.val ∧ ch.val ≤ 'Z'.val := of_decide_eq_true hupper
        exact hbelow 'Z' (by decide) hcase.2
      · exact hbelow 'z' (by decide) (of_decide_eq_true (Bool.and_eq_true_iff.1 hlower).2)
    · exact hbelow '9' (by decide) (of_decide_eq_true (Bool.and_eq_true_iff.1 hdigit).2)
  · rw [of_decide_eq_true hunderscore]
    decide

theorem IsIdentifier.ascii {name : String} (h : IsIdentifier name) : Ascii name := fun ch hch =>
  lt_of_isIdentifierPart (h.isIdentifierPart ch hch)

theorem IsIdentifier.ascii_snakeCase {name : String} (h : IsIdentifier name) :
    Ascii (snakeCase name) := by
  intro ch hch
  rw [snakeCase, String.toList_ofList] at hch
  exact lt_of_isIdentifierPart (isIdentifierPart_of_mem_snakeChars h.isIdentifierPart none ch hch)

theorem ascii_toString (n : Nat) : Ascii (toString n) := by
  intro ch hch
  have halphanum : ch.isAlphanum = true := Bool.or_eq_true_iff.2 (.inr (isDigit_of_mem_toString hch))
  exact lt_of_isIdentifierPart (Bool.or_eq_true_iff.2 (.inl halphanum))

/-- Lines with identifiers as names are ASCII. -/
theorem NamedLine.ascii {P : String → Prop} (hP : ∀ name, P name → IsIdentifier name)
    {text : String} (h : NamedLine P text) : Ascii text := by
  have hframes : ∀ frame ∈ nameFrames ++ snakeFrames, Ascii frame.1 ∧ Ascii frame.2 := by
    have hcheck : (nameFrames ++ snakeFrames).all (fun frame =>
        (bytesOf frame.1).all (·.toNat < 128) && (bytesOf frame.2).all (·.toNat < 128)) = true := by
      decide +kernel
    intro frame hframe
    obtain ⟨hfront, hback⟩ := Bool.and_eq_true_iff.1 (List.all_eq_true.1 hcheck frame hframe)
    exact ⟨ascii_of_bytesOf hfront, ascii_of_bytesOf hback⟩
  have henums : ∀ enumeration ∈ enumerations, Ascii enumeration := by
    intro enumeration henum
    have hident : ∀ enumeration ∈ enumerations, IsIdentifier enumeration := by decide
    exact (hident enumeration henum).ascii
  cases h with
  | name hframe h =>
    obtain ⟨hfront, hback⟩ := hframes _ (List.mem_append_left _ hframe)
    exact ascii_append (ascii_append hfront (hP _ h).ascii) hback
  | snake hframe h =>
    obtain ⟨hfront, hback⟩ := hframes _ (List.mem_append_right _ hframe)
    exact ascii_append (ascii_append hfront (hP _ h).ascii_snakeCase) hback
  | variant henum h =>
    refine ascii_append (ascii_append (ascii_append (ascii_append (ascii_append (henums _ henum)
      ?_) (hP _ h).ascii) ?_) (hP _ h).ascii) ?_
    all_goals exact ascii_of_bytesOf rfl
  | @variants enumeration names henum h =>
    have hpaths : ∀ path ∈ names.map fun name => enumeration ++ "::" ++ name, Ascii path := by
      intro path hpath
      obtain ⟨name, hname, rfl⟩ := List.mem_map.1 hpath
      exact ascii_append (ascii_append (henums _ henum) (ascii_of_bytesOf rfl))
        (hP _ (h name hname)).ascii
    refine ascii_append (ascii_append (ascii_append (ascii_append (ascii_append (ascii_append ?_
      (henums _ henum)) ?_) (ascii_toString _)) ?_) (ascii_intercalate ?_ hpaths)) ?_
    all_goals exact ascii_of_bytesOf rfl
  | @terminal names h =>
    have hpaths : ∀ path ∈ names.map fun name => "State::" ++ name, Ascii path := by
      intro path hpath
      obtain ⟨name, hname, rfl⟩ := List.mem_map.1 hpath
      exact ascii_append (ascii_of_bytesOf rfl) (hP _ (h name hname)).ascii
    refine ascii_append (ascii_append ?_ (ascii_intercalate ?_ hpaths)) ?_
    all_goals exact ascii_of_bytesOf rfl
  | pattern hid hevent =>
    refine ascii_append (ascii_append (ascii_append (ascii_append ?_ (hP _ hid).ascii) ?_)
      (hP _ hevent).ascii) ?_
    all_goals exact ascii_of_bytesOf rfl
  | hook haction hclass =>
    refine ascii_append (ascii_append (ascii_append (ascii_append ?_
      (hP _ haction).ascii_snakeCase) ?_) (hP _ hclass).ascii) ?_
    all_goals exact ascii_of_bytesOf rfl

theorem ascii_fixedLines : ∀ text ∈ fixedLines, Ascii text := by
  have hcheck : fixedLines.all (fun text => (bytesOf text).all (·.toNat < 128)) = true := by
    decide +kernel
  exact fun text htext => ascii_of_bytesOf (List.all_eq_true.1 hcheck text htext)

end Statechart.Source
