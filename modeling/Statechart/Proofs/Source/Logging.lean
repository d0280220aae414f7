import Statechart.Proofs.Source.Erasure
import Statechart.Proofs.Source.Nesting
set_option autoImplicit false

/-!
# Source: logging can be taken out

The source of a chart that is debugged is that of the same chart without debugging, with logging
added.  Item by item the code of the two is related by `Logged`: most items are the same, each arm
tells of its event and of its actions, the function that enters a state tells of the state, and the
functions that are called for it stand at the end of the machine.

A package with a line end in it can put a line into the banner that looks as if it told the logger
of something, unless the module is nested in its packages.  Below the banner nothing can.
-/

namespace Statechart.Source

/-! ## Arms -/

/-- The rows of the arms that the base state gets, where there is one. -/
def fallbackRows (c : Chart) : List (String × Transition) :=
  (c.baseState?.map baseRows).getD []

/-- The text tells the logger of everything that the arms of its dispatch do. -/
structure Instrumented (c : Chart) (text : String) : Prop where
  /-- each arm starts by telling of the event, and does not do so again -/
  arm : ∀ arm ∈ pushArms text ++ fallbackArms text,
    arm.body.head? = some eventLine ∧ arm.body.count eventLine = 1
  /-- nothing but the arms tells of an event -/
  count : ((readLines text).map (·.text)).count eventLine =
    (pushArms text ++ fallbackArms text).length
  /-- actions are told of before their hooks are called -/
  noted : Noted c.actions ((readLines text).map (·.text))
  /-- the line that calls a hook tells which action it is for -/
  hook_inj : ∀ a ∈ c.actions, ∀ b ∈ c.actions, hookLine a = hookLine b → a = b

theorem hookName_of_hookLine {a b : String} (h : hookLine a = hookLine b) :
    hookName a = hookName b := by
  unfold hookLine at h
  exact (String.append_right_inj _).1 ((String.append_left_inj _).1 h)

section Code

variable {actions : List String} {arms : Nat} {on off : List Code}

theorem Logged.append_same {codes : List Code} (hcodes : AllUnmarked codes)
    (h : Logged actions arms on off) : Logged actions arms (codes ++ on) (codes ++ off) := by
  induction codes with
  | nil => exact h
  | cons code codes ih =>
    have hfirst : AllUnmarked [code] :=
      hcodes.of_subset (List.cons_subset_cons _ (List.nil_subset _))
    exact .same hfirst (ih (hcodes.of_subset (List.subset_cons_self _ _)))

theorem logged_of_allUnmarked {codes : List Code} (h : AllUnmarked codes) :
    Logged actions 0 codes codes := by
  have hsame := Logged.append_same h (show Logged actions 0 [] [] from .nil)
  rwa [List.append_nil] at hsame

theorem logged_actionSteps {taken : List String} (htaken : taken ⊆ actions)
    (h : Logged actions arms on off) :
    Logged actions arms
      ((taken.flatMap (actionSteps true)).map (fun step => .line step.text) ++ on)
      ((taken.flatMap (actionSteps false)).map (fun step => .line step.text) ++ off) := by
  induction taken with
  | nil => exact h
  | cons action taken ih =>
    obtain ⟨haction, hrest⟩ := List.cons_subset.1 htaken
    rw [List.flatMap_cons, List.flatMap_cons, List.map_append, List.map_append, List.append_assoc,
      List.append_assoc]
    exact .action haction (ih hrest)

/-- What an arm does is logged once for the event and once for each action. -/
theorem logged_dispatchSteps {t : Transition} (ht : t.actions ⊆ actions) :
    Logged actions 1 ((dispatchSteps true t).map fun step => .line step.text)
      ((dispatchSteps false t).map fun step => .line step.text) := by
  have henter : AllUnmarked [.line ("self.transition_to_state(State::" ++ t.target ++ ")")] :=
    .line (unmarked_between rfl _ _)
  unfold dispatchSteps
  rw [List.map_append, List.map_append, List.map_append, List.map_append, List.append_assoc]
  exact .event (logged_actionSteps ht (logged_of_allUnmarked henter))

theorem logged_rowArms {rows : List (String × Transition)}
    (hrows : ∀ row ∈ rows, Unmarked (row.1 ++ " =>" ++ " \x7b") ∧ row.2.actions ⊆ actions)
    (h : Logged actions arms on off) :
    Logged actions (rows.length + arms) (rowArms true rows ++ on) (rowArms false rows ++ off) := by
  induction rows with
  | nil =>
    rw [List.length_nil, Nat.zero_add]
    exact h
  | cons row rows ih =>
    obtain ⟨hpattern, hactions⟩ := hrows row List.mem_cons_self
    have hrest := ih fun next hnext => hrows next (List.mem_cons_of_mem _ hnext)
    have hcount : (row :: rows).length + arms = 1 + (rows.length + arms) := by
      rw [List.length_cons]
      omega
    rw [hcount]
    exact .block hpattern (logged_dispatchSteps hactions) hrest

end Code

/-! ## The functions of the machine -/

section Machine

variable {arms : Nat} {on off : List Code} (c : Chart)

theorem actions_subset {c : Chart} {t : Transition} (ht : t ∈ c.transitions) :
    t.actions ⊆ c.actions := fun _ haction =>
  Chart.mem_actions.2 ⟨t, ht, haction⟩

theorem logged_pushFunction (h : Logged c.actions arms on off) :
    Logged c.actions ((localRows c).length + arms)
      (pushFunction { c with debug := true } :: on)
      (pushFunction { c with debug := false } :: off) := by
  obtain ⟨front, rest, hpush, hfront, hrest⟩ : ∃ front rest : List Code,
      (∀ debug, pushFunction { c with debug } = .block pushSignature
        (front ++ [.block "match (state, event)"
          (c.states.flatMap (localArms debug) ++ rest)])) ∧
        AllUnmarked front ∧ AllUnmarked rest :=
    ⟨[_, _, _, _, _], [_, _], fun _ => rfl, .fixed rfl, .fixed rfl⟩
  have hrows : ∀ row ∈ localRows c,
      Unmarked (row.1 ++ " =>" ++ " \x7b") ∧ row.2.actions ⊆ c.actions := by
    intro row hrow
    obtain ⟨s, hs, hrow⟩ := List.mem_flatMap.1 hrow
    obtain ⟨t, ht, rfl⟩ := List.mem_map.1 hrow
    refine ⟨?_, actions_subset (Chart.mem_transitions.2
      ⟨s, hs, List.mem_of_find?_eq_some (mem_firstPerEvent.1 ht)⟩)⟩
    simp only [localPattern, String.append_assoc]
    exact unmarked_append rfl _
  have harms : ∀ debug, c.states.flatMap (localArms debug) = rowArms debug (localRows c) :=
    fun debug => flatMap_localArms { c with debug }
  rw [hpush, hpush, harms, harms]
  exact .block (unmarked_append rfl _) (.append_same hfront (.block (unmarked_append rfl _)
    (logged_rowArms hrows (logged_of_allUnmarked hrest)) .nil)) h

theorem logged_baseFunction (h : Logged c.actions arms on off) :
    Logged c.actions ((fallbackRows c).length + arms)
      (baseFunction { c with debug := true } :: on)
      (baseFunction { c with debug := false } :: off) := by
  cases hbase : c.baseState? with
  | none =>
    have hfunction : ∀ debug, baseFunction { c with debug } =
        .block fallbackSignature [.line "Err(StateError::Unhandled \x7b event, state \x7d)"] := by
      intro debug
      have hbase' : Chart.baseState? { c with debug } = none := hbase
      unfold baseFunction
      rw [hbase']
      rfl
    have hrows : (fallbackRows c).length + arms = arms := by
      rw [fallbackRows, hbase]
      exact Nat.zero_add arms
    rw [hfunction, hfunction, hrows]
    exact .same (.block (unmarked_append rfl _) (.fixed rfl)) h
  | some base =>
    obtain ⟨rest, hfunction, hrest⟩ : ∃ rest : List Code,
        (∀ debug, baseFunction { c with debug } = .block fallbackSignature
          [.block "match event" (baseArms debug base ++ rest)]) ∧ AllUnmarked rest := by
      refine ⟨[.line "#[allow(unreachable_patterns)]",
        .line "_ => Err(StateError::Unhandled \x7b event, state \x7d),"], fun debug => ?_, .fixed rfl⟩
      have hbase' : Chart.baseState? { c with debug } = some base := hbase
      unfold baseFunction
      rw [hbase']
      rfl
    have hrows : ∀ row ∈ baseRows base,
        Unmarked (row.1 ++ " =>" ++ " \x7b") ∧ row.2.actions ⊆ c.actions := by
      intro row hrow
      obtain ⟨t, ht, rfl⟩ := List.mem_map.1 hrow
      refine ⟨?_, actions_subset (Chart.mem_transitions.2 ⟨base,
        Chart.mem_states_of_baseState? hbase, List.mem_of_find?_eq_some (mem_firstPerEvent.1 ht)⟩)⟩
      simp only [basePattern, String.append_assoc]
      exact unmarked_append rfl _
    rw [hfunction, hfunction, baseArms_eq, baseArms_eq, fallbackRows, hbase]
    exact .block (unmarked_append rfl _) (.block (unmarked_append rfl _)
      (logged_rowArms hrows (logged_of_allUnmarked hrest)) .nil) h

/-- What stands after the functions of the dispatch: the function that enters a state tells of it,
and the functions of the logger are the last ones. -/
theorem logged_machineTail {actions : List String} :
    Logged actions 0 (machineTail true) (machineTail false) := by
  obtain ⟨event, action, state, hlog⟩ : ∃ event action state,
      logFunctions = [[event], [action], [state]] := ⟨_, _, _, rfl⟩
  have hon : machineTail true = [.blank, enterFunction true, .blank, afterHookFunction, .blank,
      event, .blank, action, .blank, state] := by
    rw [machineTail, if_pos rfl, hlog]
    rfl
  have hoff : machineTail false = [.blank, enterFunction false, .blank, afterHookFunction] := rfl
  have hblank : AllUnmarked [.blank] := .fixed rfl
  have henter : Logged actions 0
      [.line "self.current_state.set(state);", .line stateLine,
        .line "self.after_hook(self.hooks.on_state_change(self, state))?;", .line "Ok(true)"]
      [.line "self.current_state.set(state);",
        .line "self.after_hook(self.hooks.on_state_change(self, state))?;", .line "Ok(true)"] :=
    .same (.fixed rfl) (.state (logged_of_allUnmarked (.fixed rfl)))
  have hloggers : Logged actions 0 [.blank, event, .blank, action, .blank, state] [] :=
    .logger (by simp [hlog]) (.logger (by simp [hlog]) (.logger (by simp [hlog]) .nil))
  rw [hon, hoff]
  exact .same hblank (.block (unmarked_append rfl _) henter
    (.same hblank (.same (.fixed rfl) hloggers)))

theorem logged_dispatchCode :
    Logged c.actions (localRows c ++ fallbackRows c).length
      (dispatchCode { c with debug := true }) (dispatchCode { c with debug := false }) := by
  rw [List.length_append]
  exact logged_pushFunction c (.same (.fixed rfl) (logged_baseFunction c logged_machineTail))

/-! ## The module -/

/-- The functions of the machine end with the dispatch and what it calls. -/
theorem spaced_machineFunctions :
    spaced (machineFunctions c) =
      (accessFunctions c ++ [[startFunction]]).flatMap (· ++ [.blank]) ++ dispatchCode c := by
  have hgroups : machineFunctions c = (accessFunctions c ++ [[startFunction]]) ++
      ([pushFunction c] :: [baseFunction c] :: ([[enterFunction c.debug], [afterHookFunction]]
        ++ if c.debug then logFunctions else [])) := by
    simp [machineFunctions]
  rw [hgroups, spaced_append (List.cons_ne_nil _ _)]
  rfl

theorem AllUnmarked.followed {groups : List (List Code)} (h : AllUnmarked groups.flatten) :
    AllUnmarked (groups.flatMap (· ++ [.blank])) := by
  induction groups with
  | nil => exact .nil
  | cons group groups ih =>
    rw [List.flatten_cons] at h
    have hgroup : AllUnmarked group := h.of_subset (List.subset_append_left _ _)
    have hrest : AllUnmarked groups.flatten := h.of_subset (List.subset_append_right _ _)
    rw [List.flatMap_cons]
    exact (hgroup.append (.fixed rfl)).append (ih hrest)

theorem logged_machineItems :
    Logged c.actions (localRows c ++ fallbackRows c).length
      (spaced (machineItems { c with debug := true }))
      (spaced (machineItems { c with debug := false })) := by
  have hitems : ∀ debug, spaced (machineItems { c with debug }) =
      [machineStruct c.className, .blank, .block ("impl<H: Hooks> " ++ c.className ++ "<H>")
        (spaced (machineFunctions { c with debug }))] := fun _ => rfl
  have hfront : AllUnmarked ((accessFunctions c ++ [[startFunction]]).flatMap (· ++ [.blank])) := by
    refine .followed ?_
    rw [List.flatten_append]
    exact (allUnmarked_accessFunctions c).append (.fixed rfl)
  have hhead : Unmarked ("impl<H: Hooks> " ++ c.className ++ "<H>" ++ " \x7b") := by
    simp only [String.append_assoc]
    exact unmarked_append rfl _
  rw [hitems, hitems, spaced_machineFunctions, spaced_machineFunctions]
  exact .same (allUnmarked_machineStruct _) (.same (.fixed rfl)
    (.block hhead (.append_same hfront (logged_dispatchCode c)) .nil))

variable {c}

theorem logged_moduleCode (hn : UsableNames c) :
    Logged c.actions (localRows c ++ fallbackRows c).length
      [moduleCode { c with debug := true }] [moduleCode { c with debug := false }] := by
  have hbody : ∀ debug, moduleCode { c with debug } = .block ("pub mod " ++ moduleName c.className)
      ((preambleItems ++ stateItems c ++ eventItems c ++ errorItems ++ traitItems c).flatMap
        (· ++ [.blank]) ++ spaced (machineItems { c with debug })) := by
    intro debug
    have hne : machineItems { c with debug } ≠ [] := List.cons_ne_nil _ _
    rw [← spaced_append hne]
    rfl
  have hhead : Unmarked ("pub mod " ++ moduleName c.className ++ " \x7b") :=
    unmarked_between rfl _ _
  rw [hbody, hbody]
  exact .block hhead (.append_same (.followed (allUnmarked_declarations hn))
    (logged_machineItems c)) .nil

theorem logged_nest (hn : UsableNames c) (names : List String) :
    Logged c.actions (localRows c ++ fallbackRows c).length
      [nest names (moduleCode { c with debug := true })]
      [nest names (moduleCode { c with debug := false })] := by
  induction names with
  | nil => exact logged_moduleCode hn
  | cons name names ih =>
    exact .block (unmarked_between rfl _ _) ih .nil

end Machine

/-! ## The source -/

/-- The code of the source, with its banner as a line. -/
def sourceCode (c : Chart) (options : SourceOptions) : List Code :=
  (if options.header then [.line (headerLine c), .blank] else [])
    ++ [nest (packages c options) (moduleCode c)]

theorem linesAll_sourceCode (c : Chart) (options : SourceOptions) :
    Code.linesAll 0 (sourceCode c options) = sourceLines c options := by
  unfold sourceCode sourceLines
  rw [Code.linesAll_append, Code.linesAll_cons, Code.linesAll_nil, List.append_nil]
  cases options.header <;> rfl

theorem logged_sourceCode {c : Chart} (hn : UsableNames c) (options : SourceOptions) :
    Logged c.actions (localRows c ++ fallbackRows c).length
      (sourceCode { c with debug := true } options)
      (sourceCode { c with debug := false } options) := by
  have hbanner : AllUnmarked (if options.header then [.line (headerLine c), .blank] else []) := by
    split
    · exact .cons (.line (unmarked_between rfl _ _)) (.fixed rfl)
    · exact .nil
  exact .append_same hbanner (logged_nest hn _)

section Debug

variable {c : Chart} (debug : Bool)

theorem wellFormed_setDebug (hc : c.WellFormed) : Chart.WellFormed { c with debug } :=
  ⟨hc.nodup_ids, hc.initial_mem, hc.base_mem, hc.target_mem⟩

theorem UsableNames.setDebug (hn : UsableNames c) : UsableNames { c with debug } :=
  ⟨hn.state, hn.event, hn.action, hn.hook⟩

theorem ModuleNames.setDebug {options : SourceOptions} (hm : ModuleNames c options) :
    ModuleNames { c with debug } options :=
  ⟨hm.className, hm.not_generated, hm.not_referenced, hm.module, hm.package⟩

end Debug

section Source

variable {c : Chart} {options : SourceOptions} (hc : c.WellFormed) (hn : UsableNames c)

include hc hn

/-- The arms of the source are those of all rows. -/
theorem dispatchArms_eq (options : SourceOptions) :
    pushArms (renderLines (sourceLines c options))
        ++ fallbackArms (renderLines (sourceLines c options)) =
      (localRows c ++ fallbackRows c).map (Arm.ofRow c.debug) := by
  rw [pushArms, fallbackArms, matchArms?_push hc hn, matchArms?_fallback hc hn, Option.getD_some,
    List.map_append, fallbackRows]
  cases c.baseState? <;> rfl

/-- An arm with logging tells of its event once, at its start. -/
theorem count_eventLine_ofRow {row : String × Transition} (hrow : row.2 ∈ c.transitions) :
    (Arm.ofRow true row).body.head? = some eventLine ∧
      (Arm.ofRow true row).body.count eventLine = 1 := by
  have hbare : ((dispatchSteps true row.2).map DispatchStep.text).map bare =
      (dispatchSteps true row.2).map DispatchStep.text := by
    refine (List.map_congr_left fun text htext => ?_).trans (List.map_id _)
    obtain ⟨step, hstep, rfl⟩ := List.mem_map.1 htext
    exact bare_eq (armText_of_mem_dispatchSteps hc hn hrow hstep).plain.head_ne
  have htells := (logged_dispatchSteps (actions_subset hrow)).tells.2
  rw [textsAll_steps, hbare] at htells
  exact ⟨rfl, htells⟩

omit hc in
theorem mem_transitions_of_mem_rows {row : String × Transition}
    (h : row ∈ localRows c ++ fallbackRows c) : row.2 ∈ c.transitions := by
  rcases List.mem_append.1 h with h | h
  · exact (armText_of_mem_localRows hn row h).2
  · unfold fallbackRows at h
    cases hbase : c.baseState? with
    | none =>
      rw [hbase] at h
      exact absurd h List.not_mem_nil
    | some base =>
      rw [hbase] at h
      exact (armText_of_mem_baseRows hn (Chart.mem_states_of_baseState? hbase) row h).2

/-- Where the banner is one line, logging is taken out of the source by leaving out its lines. -/
theorem withoutLogging_of_unbroken (hm : ModuleNames c options)
    (hbanner : options.header = true → '\n' ∉ (headerLine c).toList) :
    withoutLogging (renderLines (sourceLines { c with debug := true } options)) =
        renderLines (sourceLines { c with debug := false } options) ∧
      Instrumented c (renderLines (sourceLines { c with debug := true } options)) := by
  have hlogged := logged_sourceCode hn options
  have hend : ∀ text ∈ Code.textsAll (sourceCode { c with debug := true } options),
      '\n' ∉ text.toList := by
    intro text htext
    rw [sourceCode, Code.textsAll_append, List.mem_append, Code.textsAll_cons, Code.textsAll_nil,
      List.append_nil] at htext
    rcases htext with htext | htext
    · cases hheader : options.header with
      | false =>
        rw [hheader] at htext
        exact absurd htext (by simp)
      | true =>
        rw [hheader, if_pos rfl, Code.textsAll_cons, Code.textsAll_cons, Code.texts,
          Code.texts] at htext
        rcases List.mem_cons.1 htext with rfl | htext
        · exact hbanner hheader
        · rw [List.mem_singleton.1 htext]
          decide
    · exact (legible_nest (hn.setDebug true) (hm.setDebug true)
        (wellFormed_setDebug true hc)).unbroken text htext
  have herased := hlogged.withoutLogging_eq hend
  have htells := hlogged.readLines_tells hend
  rw [linesAll_sourceCode, linesAll_sourceCode] at herased
  rw [linesAll_sourceCode] at htells
  have harms := dispatchArms_eq (wellFormed_setDebug true hc) (hn.setDebug true) options
  refine ⟨herased, ?_, ?_, htells.1, ?_⟩
  · intro arm harm
    rw [harms] at harm
    obtain ⟨row, hrow, rfl⟩ := List.mem_map.1 harm
    exact count_eventLine_ofRow hc hn (mem_transitions_of_mem_rows hn hrow)
  · rw [harms, List.length_map]
    exact htells.2
  · exact fun a ha b hb heq => hn.hook a ha b hb (hookName_of_hookLine heq)

end Source

/-- The banner is one line if the package is. -/
theorem not_mem_headerLine {c : Chart} (hclass : IsIdentifier c.className)
    (h : ∀ package, c.package? = some package → '\n' ∉ package.toList) :
    '\n' ∉ (headerLine c).toList := by
  have hname : '\n' ∉ c.qualifiedName.toList := by
    unfold Chart.qualifiedName
    cases hpackage : c.package? with
    | none => exact hclass.not_mem_newline
    | some package =>
      exact not_mem_append (not_mem_append (h package hpackage) (by decide)) hclass.not_mem_newline
  exact not_mem_append (not_mem_append (by decide) hname) (by decide)

/-- **Logging can be taken out of the source.**  With debugging and without, generation fails with
the same fault or succeeds.  When it succeeds, what stands below the banner is the same but for what
is told to the logger: leaving that out of the one gives the other.  So it is for the whole source,
unless a package with a line end in it is quoted in the banner. -/
theorem generate_debug_erases {c : Chart} (hd : c.IsDocument) (options : SourceOptions) :
    (∃ fault, generate { c with debug := true } options = .error fault ∧
      generate { c with debug := false } options = .error fault) ∨
    ∃ on off,
      generate { c with debug := true } options = .ok (bannerText c options.header ++ on) ∧
      generate { c with debug := false } options = .ok (bannerText c options.header ++ off) ∧
      withoutLogging on = off ∧ Instrumented c on ∧
      ((options.nestPackages = true ∨ options.header = false ∨
          ∀ package, c.package? = some package → '\n' ∉ package.toList) →
        withoutLogging (bannerText c options.header ++ on) = bannerText c options.header ++ off ∧
          Instrumented c (bannerText c options.header ++ on)) := by
  cases hnames : checkNames c options with
  | error fault =>
    have hsame : ∀ debug, generate { c with debug } options = .error fault := by
      intro debug
      have hchecked : checkNames { c with debug } options = .error fault := hnames
      rw [generate, hchecked]
    exact .inl ⟨fault, hsame true, hsame false⟩
  | ok =>
    have hc := hd.wellFormed
    have hn := usableNames_of_checkNames hnames
    have hm := moduleNames_of_checkNames hnames
    have hm' : ModuleNames c { options with header := false } := moduleNames_of_checkNames hnames
    -- the source is the banner and what is generated without a banner
    have hsource : ∀ debug, renderLines (sourceLines { c with debug } options) =
        bannerText c options.header ++
          renderLines (sourceLines { c with debug } { options with header := false }) :=
      fun debug => renderLines_sourceLines_eq { c with debug } options
    have hgenerate : ∀ debug, generate { c with debug } options = .ok (bannerText c options.header ++
        renderLines (sourceLines { c with debug } { options with header := false })) := by
      intro debug
      have hchecked : checkNames { c with debug } options = .ok () := hnames
      rw [generate, hchecked, ← hsource]
    obtain ⟨hbelow, hinstrumented⟩ := withoutLogging_of_unbroken hc hn hm'
      fun hheader => absurd hheader Bool.false_ne_true
    refine .inr ⟨_, _, hgenerate true, hgenerate false, hbelow, hinstrumented, ?_⟩
    intro hunbroken
    rw [← hsource, ← hsource]
    refine withoutLogging_of_unbroken hc hn hm fun hheader => not_mem_headerLine hm.className ?_
    rcases hunbroken with hnest | hnone | hpackage
    · exact fun package hpackage => (oneLine_of_nested hm hnest hpackage).1
    · rw [hheader] at hnone
      cases hnone
    · exact hpackage

/-- The source of the door is that of a door without debugging, with logging. -/
theorem generate_debug_erases_door :
    ∃ on off, generate .door {} = .ok on ∧ generate { Chart.door with debug := false } {} = .ok off ∧
      withoutLogging on = off ∧ Instrumented .door on := by
  have hok : generate { Chart.door with debug := true } {} =
      .ok (renderLines (sourceLines .door {})) := rfl
  obtain ⟨fault, herror, -⟩ | ⟨on, off, hon, hoff, -, -, hwhole⟩ :=
    generate_debug_erases Chart.isDocument_door {}
  · cases hok.symm.trans herror
  · obtain ⟨herased, hinstrumented⟩ := hwhole (.inl rfl)
    exact ⟨_, _, hon, hoff, herased, hinstrumented⟩

/-! ## A lamp with a note in its package -/

/-- A package that puts a line into the banner which looks as if the logger were told of an event. -/
def notingPackage : String :=
  "home\nself.log_event(event);\n//"

/-- The element tree of that lamp, to be debugged. -/
def debuggedLampElement : Markup.Element :=
  ⟨"scxml", [⟨"name", notingPackage ++ ".Lamp"⟩, ⟨"debug", "true"⟩],
    [⟨"state", [⟨"id", "Off"⟩], []⟩]⟩

/-- **A package can look like logging**: the line it puts into the banner is there without debugging
too. -/
theorem withoutLogging_ne_of_notingPackage :
    Chart.ofElement (lampElementIn notingPackage) = .ok (lampIn notingPackage) ∧
      Chart.ofElement debuggedLampElement = .ok { lampIn notingPackage with debug := true } ∧
      ∃ on off,
        generate { lampIn notingPackage with debug := true } { nestPackages := false } = .ok on ∧
        generate (lampIn notingPackage) { nestPackages := false } = .ok off ∧
        withoutLogging on ≠ off := by
  refine ⟨rfl, rfl, _, _, rfl, rfl, ?_⟩
  intro heq
  have hbanner : (headerLine (lampIn notingPackage)).toList =
      "// @generated by scxml-fsm from `home".toList ++ '\n' ::
        (eventLine.toList ++ '\n' :: "//.Lamp`. Do not edit.".toList) := by
    decide +kernel
  have hmem : SourceLine.ofChars eventLine.toList ∈
      readLines (renderLines (sourceLines (lampIn notingPackage) { nestPackages := false })) := by
    refine List.mem_map_of_mem ?_
    rw [renderLines_sourceLines rfl, String.append_assoc, String.toList_append, hbanner,
      List.append_assoc, List.cons_append, List.append_assoc, List.cons_append,
      Text.lines_append_of_not_mem (by decide), Text.lines_append_of_not_mem (by decide)]
    exact List.mem_cons_of_mem _ List.mem_cons_self
  have hcalls : (SourceLine.ofChars eventLine.toList).callsLogger = true := callsLogger_eventLine 0
  rw [← heq] at hmem
  rw [callsLogger_of_mem_withoutLogging hmem] at hcalls
  cases hcalls

end Statechart.Source
