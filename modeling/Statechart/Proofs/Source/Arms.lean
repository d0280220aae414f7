import Statechart.Source.Module
import Statechart.Proofs.Chart.Document
import Statechart.Proofs.Source.Names
import Statechart.Proofs.Source.Reading
set_option autoImplicit false

/-!
# Source: the arms of the dispatch

Finds the arms of the two matches of a generated machine in its text, by the signatures of the
functions that hold them, and states which arms these are: one for each row of `localRows` and of
`baseRows`, in order, under the row's pattern and with the lines of the row's transition.
-/

namespace Statechart.Source

/-! ## Readers -/

/-- The signature of the function that takes in an event. -/
def pushSignature : String :=
  "pub fn push_event(&self, event: Event) -> Result<bool, StateError>"

/-- The signature of the function that is asked when the current state has no arm. -/
def fallbackSignature : String :=
  "fn handle_base_event(&self, state: State, event: Event) -> Result<bool, StateError>"

/-- The arms of the match on `subject` in the function with a signature. -/
def matchArms? (signature subject text : String) : Option (List Arm) :=
  (lastBlock? (signature ++ " \x7b") (readLines text)).bind fun body =>
    (lastBlock? ("match " ++ subject ++ " \x7b") body).map readArms

/-! ## Rows -/

/-- The arms that the states get: pattern and transition. -/
def localRows (c : Chart) : List (String × Transition) :=
  c.states.flatMap fun s =>
    (firstPerEvent s.transitions).map fun t => (localPattern s.id t.event, t)

/-- The arms that the base state gets. -/
def baseRows (base : State) : List (String × Transition) :=
  (firstPerEvent base.transitions).map fun t => (basePattern t.event, t)

/-- The code of rows. -/
def rowArms (debug : Bool) (rows : List (String × Transition)) : List Code :=
  rows.map fun row => arm debug row.1 row.2

/-- The arm that is read for a row. -/
def Arm.ofRow (debug : Bool) (row : String × Transition) : Arm where
  head := row.1 ++ " => \x7b"
  body := (dispatchSteps debug row.2).map DispatchStep.text

theorem flatMap_localArms (c : Chart) :
    c.states.flatMap (Source.localArms c.debug) = rowArms c.debug (localRows c) := by
  simp only [rowArms, localRows, List.map_flatMap, List.map_map, Function.comp_def]
  rfl

theorem baseArms_eq (debug : Bool) (base : State) :
    Source.baseArms debug base = rowArms debug (baseRows base) := by
  simp only [rowArms, baseRows, List.map_map, Function.comp_def]
  rfl

/-- The transitions that can be taken have different events. -/
theorem nodup_firstPerEvent (ts : List Transition) :
    ((firstPerEvent ts).map (·.event)).Nodup := by
  induction ts with
  | nil => exact List.nodup_nil
  | cons t ts ih =>
    rw [firstPerEvent, List.map_cons, List.nodup_cons]
    refine ⟨?_, ih.sublist (List.filter_sublist.map _)⟩
    intro hmem
    obtain ⟨other, hother, heq⟩ := List.mem_map.1 hmem
    have hne := (List.mem_filter.1 hother).2
    simp [heq] at hne

/-- The transitions that can be taken are those that are found under their event. -/
theorem mem_firstPerEvent {t : Transition} {ts : List Transition} :
    t ∈ firstPerEvent ts ↔ ts.find? (·.event = t.event) = some t := by
  induction ts with
  | nil => simp [firstPerEvent]
  | cons first rest ih =>
    rw [firstPerEvent, List.mem_cons, List.mem_filter, ih]
    by_cases heq : first.event = t.event
    · rw [List.find?_cons_of_pos (by simpa using heq)]
      constructor
      · rintro (rfl | ⟨_, hne⟩)
        · rfl
        · simp [heq] at hne
      · intro h
        exact Or.inl (Option.some.inj h).symm
    · rw [List.find?_cons_of_neg (by simpa using heq)]
      constructor
      · rintro (rfl | ⟨hfind, _⟩)
        · exact absurd rfl heq
        · exact hfind
      · intro h
        exact Or.inr ⟨h, by simpa using Ne.symm heq⟩

/-! ## The words of an arm -/

/-- Characters that the lines of an arm start with. -/
def isArmStart (c : Char) : Bool :=
  c = '(' || c = 'E' || c = 's' || c = '\x7d'

/-- Words that can stand in an arm: on one line, and with a first character that no function and no
match starts with. -/
structure ArmText (text : String) : Prop where
  not_mem : '\n' ∉ text.toList
  starts : text.toList.head?.any isArmStart = true

theorem ArmText.plain {text : String} (h : ArmText text) : Plain text := by
  refine ⟨h.not_mem, ?_⟩
  intro hblank
  have hstarts := h.starts
  rw [hblank] at hstarts
  exact absurd hstarts (by decide)

theorem ArmText.append {front back : String} (h : ArmText front) (hback : '\n' ∉ back.toList) :
    ArmText (front ++ back) := by
  refine ⟨?_, ?_⟩
  · rw [String.toList_append, List.mem_append]
    exact not_or.2 ⟨h.not_mem, hback⟩
  · have hstarts := h.starts
    rw [String.toList_append, List.head?_append]
    cases hhead : front.toList.head? with
    | none =>
      rw [hhead] at hstarts
      cases hstarts
    | some c =>
      rw [hhead] at hstarts
      exact hstarts

/-- Whether fixed words can stand in an arm. -/
def looksArmText (text : String) : Bool :=
  (bytesOf text).all (· ≠ 10) && (bytesOf text).head?.any fun byte =>
    byte.toNat < 128 && isArmStart (Char.ofNat byte.toNat)

theorem ArmText.fixed {text : String} (h : looksArmText text = true) : ArmText text := by
  obtain ⟨hline, hstarts⟩ := Bool.and_eq_true_iff.1 h
  exact ⟨not_mem_of_bytesOf hline, head?_any_of_bytesOf hstarts⟩

section Rows

variable {c : Chart}

theorem UsableNames.event_of_mem (hn : UsableNames c) {t : Transition} (ht : t ∈ c.transitions) :
    IsIdentifier t.event :=
  hn.event _ (Chart.mem_events.2 ⟨t, ht, rfl⟩)

/-- The steps of a transition can stand in an arm. -/
theorem armText_of_mem_dispatchSteps (hc : c.WellFormed) (hn : UsableNames c) {t : Transition}
    (ht : t ∈ c.transitions) {debug : Bool} {step : DispatchStep}
    (hstep : step ∈ dispatchSteps debug t) : ArmText step.text := by
  have haction : ∀ action ∈ t.actions, IsIdentifier action := fun action ha =>
    hn.action action (Chart.mem_actions.2 ⟨t, ht, ha⟩)
  have hline : isIdentifierPart '\n' = false := by decide
  unfold dispatchSteps actionSteps at hstep
  cases step with
  | logEvent => exact .fixed rfl
  | logAction action =>
    have hmem : action ∈ t.actions := by
      cases debug <;> simp at hstep
      exact hstep
    exact ((ArmText.fixed rfl).append ((haction action hmem).not_mem hline)).append
      (not_mem_of_bytesOf rfl)
  | callHook action =>
    have hmem : action ∈ t.actions := by
      cases debug <;> simpa using hstep
    have hhook : '\n' ∉ (hookName action).toList := by
      intro hin
      have hpart := isIdentifierPart_of_mem_hookName (haction action hmem) _ hin
      rw [hline] at hpart
      exact nomatch hpart
    exact ((ArmText.fixed rfl).append hhook).append (not_mem_of_bytesOf rfl)
  | enter target =>
    have htarget : target = t.target := by
      cases debug <;> simpa using hstep
    have hname := hn.state _ (hc.target_mem t ht)
    rw [htarget]
    exact ((ArmText.fixed rfl).append (hname.not_mem hline)).append (not_mem_of_bytesOf rfl)

/-- The lines of the steps of an arm. -/
theorem textsAll_steps (debug : Bool) (t : Transition) :
    Code.textsAll ((dispatchSteps debug t).map fun step => .line step.text) =
      (dispatchSteps debug t).map DispatchStep.text := by
  rw [Code.textsAll_eq_flatMap, List.flatMap_map, List.map_eq_flatMap]
  simp only [Code.texts]

/-- The lines of an arm. -/
theorem texts_arm (debug : Bool) (pattern : String) (t : Transition) :
    (arm debug pattern t).texts =
      (pattern ++ " => \x7b") :: ((dispatchSteps debug t).map DispatchStep.text ++ ["\x7d"]) := by
  rw [arm, Code.texts, textsAll_steps, String.append_assoc]
  rfl

/-- All lines of the arms of rows can stand in an arm, if the patterns can. -/
theorem armText_of_mem_rowArms (hc : c.WellFormed) (hn : UsableNames c) {debug : Bool}
    {rows : List (String × Transition)}
    (hrows : ∀ row ∈ rows, ArmText row.1 ∧ row.2 ∈ c.transitions) :
    ∀ text ∈ Code.textsAll (rowArms debug rows), ArmText text := by
  intro text htext
  rw [rowArms, Code.textsAll_eq_flatMap, List.flatMap_map, List.mem_flatMap] at htext
  obtain ⟨row, hrow, htext⟩ := htext
  obtain ⟨hpattern, ht⟩ := hrows row hrow
  rw [texts_arm, List.mem_cons, List.mem_append, List.mem_map, List.mem_singleton] at htext
  rcases htext with rfl | ⟨step, hstep, rfl⟩ | rfl
  · exact hpattern.append (not_mem_of_bytesOf rfl)
  · exact armText_of_mem_dispatchSteps hc hn ht hstep
  · exact .fixed rfl

theorem armText_of_mem_localRows (hn : UsableNames c) :
    ∀ row ∈ localRows c, ArmText row.1 ∧ row.2 ∈ c.transitions := by
  intro row hrow
  have hline : isIdentifierPart '\n' = false := by decide
  obtain ⟨s, hs, hrow⟩ := List.mem_flatMap.1 hrow
  obtain ⟨t, ht, rfl⟩ := List.mem_map.1 hrow
  have htmem : t ∈ c.transitions :=
    Chart.mem_transitions.2 ⟨s, hs, List.mem_of_find?_eq_some (mem_firstPerEvent.1 ht)⟩
  have hid : IsIdentifier s.id := hn.state _ (List.mem_map_of_mem hs)
  refine ⟨?_, htmem⟩
  exact ((((ArmText.fixed rfl).append (hid.not_mem hline)).append
    (not_mem_of_bytesOf rfl)).append ((hn.event_of_mem htmem).not_mem hline)).append
      (not_mem_of_bytesOf rfl)

theorem armText_of_mem_baseRows (hn : UsableNames c) {base : State} (hbase : base ∈ c.states) :
    ∀ row ∈ baseRows base, ArmText row.1 ∧ row.2 ∈ c.transitions := by
  intro row hrow
  obtain ⟨t, ht, rfl⟩ := List.mem_map.1 hrow
  have htmem : t ∈ c.transitions :=
    Chart.mem_transitions.2 ⟨base, hbase, List.mem_of_find?_eq_some (mem_firstPerEvent.1 ht)⟩
  exact ⟨(ArmText.fixed rfl).append ((hn.event_of_mem htmem).not_mem (by decide)), htmem⟩

end Rows

/-! ## Reading arms -/

theorem getLast?_append_ne {front back : String} {c d : Char}
    (hback : back.toList.getLast? = some d) (hne : d ≠ c) :
    (front ++ back).toList.getLast? ≠ some c := by
  rw [String.toList_append, List.getLast?_append, hback]
  exact fun heq => hne (Option.some.inj heq)

/-- No step ends in an opening brace. -/
theorem DispatchStep.getLast?_text (step : DispatchStep) :
    step.text.toList.getLast? ≠ some '\x7b' := by
  cases step with
  | logEvent => exact getLast?_of_bytesOf (by decide)
  | logAction action => exact getLast?_append_ne (d := ';') (by decide) (by decide)
  | callHook action => exact getLast?_append_ne (d := ';') (by decide) (by decide)
  | enter target => exact getLast?_append_ne (d := ')') (by decide) (by decide)

theorem opensArm_head (pattern : String) (indent : Nat) :
    (SourceLine.mk indent (pattern ++ " =>" ++ " \x7b")).opensArm = true := by
  unfold SourceLine.opensArm
  rw [List.isSuffixOf_iff_suffix]
  refine ⟨pattern.toList, ?_⟩
  rw [String.append_assoc, String.toList_append]
  rfl

/-- The arm of a row is read as that row. -/
theorem readArms_arm (debug : Bool) (pattern : String) (t : Transition) (depth : Nat)
    (rest : List SourceLine) :
    readArms (((arm debug pattern t).lines depth).map CodeLine.toSource ++ rest) =
      Arm.ofRow debug (pattern, t) :: readArms rest := by
  let steps : List Code := (dispatchSteps debug t).map fun step => .line step.text
  have htexts : Code.textsAll steps = (dispatchSteps debug t).map DispatchStep.text :=
    textsAll_steps debug t
  have hclosed : ∀ line ∈ (Code.linesAll (depth + 1) steps).map CodeLine.toSource ++
      [⟨4 * depth, "\x7d"⟩], line.opensArm = false := by
    intro line hline
    rcases List.mem_append.1 hline with hline | hline
    · have hmem := Code.text_mem_textsAll hline
      rw [htexts] at hmem
      obtain ⟨step, _, hstep⟩ := List.mem_map.1 hmem
      exact opensArm_eq_false (hstep ▸ step.getLast?_text)
    · rw [List.mem_singleton.1 hline]
      exact opensArm_eq_false (show "\x7d".toList.getLast? ≠ some '\x7b' by decide)
  have hskip := readArms_append_of_not_opens hclosed rest
  rw [List.append_assoc, List.singleton_append] at hskip
  rw [arm, Code.map_toSource_block, readArms, if_pos (opensArm_head pattern (4 * depth)), hskip,
    takeWhile_isInside_linesAll depth steps (by decide) rest, Code.map_text_toSource, htexts,
    String.append_assoc]
  rfl

/-- The arms of rows are read as these rows, in order. -/
theorem readArms_rowArms (debug : Bool) (rows : List (String × Transition)) (depth : Nat)
    (rest : List SourceLine) :
    readArms ((Code.linesAll depth (rowArms debug rows)).map CodeLine.toSource ++ rest) =
      rows.map (Arm.ofRow debug) ++ readArms rest := by
  induction rows with
  | nil => rw [rowArms, List.map_nil, Code.linesAll_nil]; rfl
  | cons row rows ih =>
    rw [rowArms, List.map_cons, Code.linesAll_cons, List.map_append, List.append_assoc,
      readArms_arm, ← rowArms, ih]
    rfl

/-! ## Where the dispatch stands -/

/-- The lines end with pieces of code at some depth and closing braces after them. -/
def EndsWith (codes : List Code) (lines : List CodeLine) : Prop :=
  ∃ before depth closing, lines = before ++ (Code.linesAll depth codes ++ closing) ∧
    ∀ line ∈ closing, line.text = "\x7d"

theorem EndsWith.append {codes : List Code} {lines : List CodeLine} (h : EndsWith codes lines)
    (front : List CodeLine) : EndsWith codes (front ++ lines) := by
  obtain ⟨before, depth, closing, rfl, hclosing⟩ := h
  exact ⟨front ++ before, depth, closing, (List.append_assoc _ _ _).symm, hclosing⟩

theorem endsWith_linesAll (front codes : List Code) (depth : Nat) :
    EndsWith codes (Code.linesAll depth (front ++ codes)) :=
  ⟨Code.linesAll depth front, depth, [], by rw [Code.linesAll_append, List.append_nil],
    fun _ hline => absurd hline List.not_mem_nil⟩

theorem EndsWith.last {codes : List Code} {code : Code} {depth : Nat}
    (h : EndsWith codes (code.lines depth)) (front : List Code) :
    EndsWith codes (Code.linesAll depth (front ++ [code])) := by
  rw [Code.linesAll_append, Code.linesAll_cons, Code.linesAll_nil, List.append_nil]
  exact h.append _

theorem EndsWith.block {codes body : List Code} {depth : Nat}
    (h : EndsWith codes (Code.linesAll (depth + 1) body)) (head : String) :
    EndsWith codes ((Code.block head body).lines depth) := by
  obtain ⟨before, inner, closing, hlines, hclosing⟩ := h
  refine ⟨.filled depth (head ++ " \x7b") :: before, inner,
    closing ++ [.filled depth ("\x7d" ++ "")], ?_, ?_⟩
  · rw [Code.lines, hlines]
    simp only [List.append_assoc, List.cons_append]
  · intro line hline
    rcases List.mem_append.1 hline with hline | hline
    · exact hclosing line hline
    · rw [List.mem_singleton.1 hline]
      rfl

/-- Packages add their own lines around the code only. -/
theorem EndsWith.nest {codes : List Code} {code : Code}
    (h : ∀ depth, EndsWith codes (code.lines depth)) (packages : List String) (depth : Nat) :
    EndsWith codes ((nest packages code).lines depth) := by
  induction packages generalizing depth with
  | nil => exact h depth
  | cons package packages ih => exact ((ih (depth + 1)).last []).block ("pub mod " ++ package)

/-- Groups in front of others stay in front, each with an empty line after it. -/
theorem spaced_append {groups : List (List Code)} (h : groups ≠ []) (front : List (List Code)) :
    spaced (front ++ groups) = front.flatMap (· ++ [.blank]) ++ spaced groups := by
  induction front with
  | nil => rfl
  | cons group front ih =>
    have hne : front ++ groups ≠ [] := List.append_ne_nil_of_right_ne_nil front h
    rw [List.flatMap_cons, List.append_assoc, ← ih]
    unfold spaced
    rw [List.cons_append, List.intercalate_cons_of_ne_nil hne, List.append_assoc]

/-- What stands in the machine after the functions of the dispatch. -/
def machineTail (debug : Bool) : List Code :=
  .blank :: spaced ([[enterFunction debug], [afterHookFunction]]
    ++ if debug then logFunctions else [])

/-- The functions of the dispatch and what stands after them. -/
def dispatchCode (c : Chart) : List Code :=
  pushFunction c :: .blank :: baseFunction c :: machineTail c.debug

theorem endsWith_machineItems (c : Chart) (depth : Nat) :
    EndsWith (dispatchCode c) (Code.linesAll depth (spaced (machineItems c))) := by
  have hgroups : accessFunctions c
        ++ [[startFunction], [pushFunction c], [baseFunction c], [enterFunction c.debug],
          [afterHookFunction]]
        ++ (if c.debug then logFunctions else []) =
      (accessFunctions c ++ [[startFunction]]) ++ ([pushFunction c] :: [baseFunction c] ::
        ([[enterFunction c.debug], [afterHookFunction]]
          ++ if c.debug then logFunctions else [])) := by
    simp
  have hspaced : spaced ([pushFunction c] :: [baseFunction c] ::
      ([[enterFunction c.debug], [afterHookFunction]] ++ if c.debug then logFunctions else [])) =
      dispatchCode c := rfl
  unfold machineItems
  rw [hgroups, spaced_append (List.cons_ne_nil _ _), hspaced]
  exact ((endsWith_linesAll _ _ _).block _).last [machineStruct c.className, .blank]

/-- The generated source ends with the dispatch. -/
theorem endsWith_sourceLines (c : Chart) (options : SourceOptions) :
    EndsWith (dispatchCode c) (sourceLines c options) := by
  have hmodule : ∀ depth, EndsWith (dispatchCode c) ((moduleCode c).lines depth) := by
    intro depth
    unfold moduleCode
    rw [spaced_append (by simp [machineItems])]
    refine EndsWith.block ?_ _
    rw [Code.linesAll_append]
    exact (endsWith_machineItems c (depth + 1)).append _
  exact (EndsWith.nest hmodule _ 0).append _

/-! ## The arms of the generated source -/

/-- The words of the first line of a function or match of the dispatch. -/
def dispatchHeads : List String :=
  [pushSignature ++ " \x7b", fallbackSignature ++ " \x7b", "match (state, event) \x7b",
    "match event \x7b"]

/-- Words that are read as they are written and open no function and no match of the dispatch. -/
structure Inert (text : String) : Prop where
  plain : Plain text
  not_mem : text ∉ dispatchHeads

instance (text : String) : Decidable (Inert text) :=
  decidable_of_iff (Plain text ∧ text ∉ dispatchHeads)
    ⟨fun h => ⟨h.1, h.2⟩, fun h => ⟨h.plain, h.not_mem⟩⟩

theorem Inert.ne {text head : String} (h : Inert text) (hhead : head ∈ dispatchHeads) :
    text ≠ head := by
  rintro rfl
  exact h.not_mem hhead

theorem ArmText.inert {text : String} (h : ArmText text) : Inert text := by
  refine ⟨h.plain, ?_⟩
  intro hmem
  have hheads : dispatchHeads.all (fun head => (bytesOf head).head?.any fun byte =>
      byte.toNat < 128 && !isArmStart (Char.ofNat byte.toNat)) = true := rfl
  have hstarts : text.toList.head?.any (fun ch => !isArmStart ch) = true :=
    head?_any_of_bytesOf (List.all_eq_true.1 hheads text hmem)
  have harm := h.starts
  cases hhead : text.toList.head? with
  | none =>
    rw [hhead] at harm
    cases harm
  | some ch =>
    rw [hhead, Option.any_some] at harm hstarts
    rw [harm] at hstarts
    cases hstarts

/-- Whether fixed words are inert, by their bytes. -/
def looksInert (text : String) : Bool :=
  text = "" || looksPlain text && dispatchHeads.all fun head => bytesOf text ≠ bytesOf head

theorem inert_empty : Inert "" := by
  decide

theorem inert_of_looksInert {text : String} (h : looksInert text = true) : Inert text := by
  rcases Bool.or_eq_true_iff.1 h with hempty | hlooks
  · rw [of_decide_eq_true hempty]
    exact inert_empty
  · obtain ⟨hplain, hheads⟩ := Bool.and_eq_true_iff.1 hlooks
    refine ⟨plain_of_looksPlain hplain, ?_⟩
    intro hmem
    exact of_decide_eq_true (List.all_eq_true.1 hheads text hmem) rfl

theorem inert_of_all {codes : List Code} (h : (Code.textsAll codes).all looksInert = true) :
    ∀ text ∈ Code.textsAll codes, Inert text := fun text htext =>
  inert_of_looksInert (List.all_eq_true.1 h text htext)

/-- Fixed code of which no line opens an arm. -/
theorem inert_and_getLast?_of_all {codes : List Code}
    (h : ((Code.textsAll codes).all fun text =>
      looksInert text && (bytesOf text).getLast? ≠ some 123) = true) :
    ∀ text ∈ Code.textsAll codes, Inert text ∧ text.toList.getLast? ≠ some '\x7b' := by
  intro text htext
  obtain ⟨hinert, hlast⟩ := Bool.and_eq_true_iff.1 (List.all_eq_true.1 h text htext)
  exact ⟨inert_of_looksInert hinert, getLast?_of_bytesOf (of_decide_eq_true hlast)⟩

theorem inert_brace : Inert "\x7d" :=
  inert_of_looksInert rfl

theorem plain_of_mem_dispatchHeads : ∀ head ∈ dispatchHeads, Plain head := by
  have hheads : dispatchHeads.all looksPlain = true := rfl
  exact fun head hhead => plain_of_looksPlain (List.all_eq_true.1 hheads head hhead)

/-- What stands after the functions of the dispatch is inert. -/
theorem inert_machineTail (debug : Bool) :
    ∀ text ∈ Code.textsAll (machineTail debug), Inert text := by
  cases debug with
  | true => exact inert_of_all rfl
  | false => exact inert_of_all rfl

/-- The body of a function of the dispatch: something in front, then a match. -/
def matchBody (subject : String) (front arms : List Code) : List Code :=
  front ++ [.block ("match " ++ subject) arms]

section Match

variable {signature subject : String} {front arms rest : List Code}

theorem mem_textsAll_matchBody (hfront : ∀ text ∈ Code.textsAll front, Inert text)
    (harms : ∀ text ∈ Code.textsAll arms, Inert text) {text : String}
    (h : text ∈ Code.textsAll (matchBody subject front arms)) :
    Inert text ∨ text = "match " ++ subject ++ " \x7b" := by
  rw [matchBody, Code.textsAll_append, Code.textsAll_cons, Code.textsAll_nil, List.append_nil,
    Code.texts, List.mem_append, List.mem_cons, List.mem_append, List.mem_singleton] at h
  rcases h with h | h | h | rfl
  · exact Or.inl (hfront text h)
  · exact Or.inr h
  · exact Or.inl (harms text h)
  · exact Or.inl inert_brace

/-- All lines of a function of the dispatch are inert except the first ones of the function and of
its match. -/
theorem mem_texts_function {body : List Code} {head : String}
    (hbody : ∀ text ∈ Code.textsAll body, Inert text ∨ text = head) {text : String}
    (h : text ∈ (Code.block signature body).texts) :
    Inert text ∨ text = signature ++ " \x7b" ∨ text = head := by
  rw [Code.texts, List.mem_cons, List.mem_append, List.mem_singleton] at h
  rcases h with h | h | rfl
  · exact Or.inr (Or.inl h)
  · exact (hbody text h).imp_right Or.inr
  · exact Or.inl inert_brace

/-- The match is the last block with its first line. -/
theorem lastBlock?_matchBody (hsubject : "match " ++ subject ++ " \x7b" ∈ dispatchHeads)
    (harms : ∀ text ∈ Code.textsAll arms, Inert text) (depth : Nat) :
    lastBlock? ("match " ++ subject ++ " \x7b")
        ((Code.linesAll depth (matchBody subject front arms)).map CodeLine.toSource) =
      some ((Code.linesAll (depth + 1) arms).map CodeLine.toSource) := by
  have hne : ∀ text ∈ Code.textsAll arms, text ≠ "match " ++ subject ++ " \x7b" :=
    fun text htext => (harms text htext).ne hsubject
  have hsplit : (Code.linesAll depth (matchBody subject front arms)).map CodeLine.toSource =
      (Code.linesAll depth front).map CodeLine.toSource ++
        (((Code.block ("match " ++ subject) arms).lines depth).map CodeLine.toSource ++ []) := by
    rw [matchBody, Code.linesAll_append, Code.linesAll_cons, Code.linesAll_nil, List.map_append,
      List.append_nil, List.append_nil]
  rw [hsplit]
  exact lastBlock?_block hne (fun _ hline => absurd hline List.not_mem_nil) _ depth

/-- Of lines that open no arm nothing is read. -/
theorem readArms_eq_nil (hrest : ∀ text ∈ Code.textsAll rest, text.toList.getLast? ≠ some '\x7b')
    (depth : Nat) : readArms ((Code.linesAll depth rest).map CodeLine.toSource) = [] := by
  have hnone : ∀ line ∈ (Code.linesAll depth rest).map CodeLine.toSource,
      line.opensArm = false := by
    intro line hline
    exact opensArm_eq_false (hrest _ (Code.text_mem_textsAll hline))
  have hempty := readArms_append_of_not_opens hnone []
  rwa [List.append_nil] at hempty

/-- The arms of a match that was written for rows are read as these rows, if the function is not
written again after it. -/
theorem matchArms?_of_readLines {text : String} {before after : List SourceLine} {depth : Nat}
    {debug : Bool} {rows : List (String × Transition)}
    (hlines : readLines text = before ++
      (((Code.block signature (matchBody subject front (rowArms debug rows ++ rest))).lines
        depth).map CodeLine.toSource ++ after))
    (hsignature : signature ++ " \x7b" ∈ dispatchHeads)
    (hsubject : "match " ++ subject ++ " \x7b" ∈ dispatchHeads)
    (hne : "match " ++ subject ++ " \x7b" ≠ signature ++ " \x7b")
    (hfront : ∀ text ∈ Code.textsAll front, Inert text)
    (harms : ∀ text ∈ Code.textsAll (rowArms debug rows ++ rest), Inert text)
    (hrest : ∀ text ∈ Code.textsAll rest, text.toList.getLast? ≠ some '\x7b')
    (hafter : ∀ line ∈ after, line.text ≠ signature ++ " \x7b") :
    matchArms? signature subject text = some (rows.map (Arm.ofRow debug)) := by
  have hbody : ∀ text ∈ Code.textsAll (matchBody subject front (rowArms debug rows ++ rest)),
      text ≠ signature ++ " \x7b" := by
    intro text htext
    rcases mem_textsAll_matchBody hfront harms htext with hinert | rfl
    · exact hinert.ne hsignature
    · exact hne
  unfold matchArms?
  rw [hlines, lastBlock?_block hbody hafter, Option.bind_some,
    lastBlock?_matchBody hsubject harms, Option.map_some, Code.linesAll_append, List.map_append,
    readArms_rowArms, readArms_eq_nil hrest, List.append_nil]

end Match

/-! ## The two functions -/

section Generated

variable {c : Chart}

theorem exists_pushFunction (c : Chart) : ∃ front rest, pushFunction c =
      .block pushSignature
        (matchBody "(state, event)" front (rowArms c.debug (localRows c) ++ rest)) ∧
    (∀ text ∈ Code.textsAll front, Inert text) ∧
    ∀ text ∈ Code.textsAll rest, Inert text ∧ text.toList.getLast? ≠ some '\x7b' := by
  have hpush : pushFunction c = .block pushSignature
      (matchBody "(state, event)" [_, _, _, _, _]
        (c.states.flatMap (localArms c.debug) ++ [_, _])) := rfl
  rw [flatMap_localArms] at hpush
  exact ⟨_, _, hpush, inert_of_all rfl, inert_and_getLast?_of_all rfl⟩

theorem exists_baseFunction {base : State} (hbase : c.baseState? = some base) : ∃ rest,
    baseFunction c =
      .block fallbackSignature (matchBody "event" [] (rowArms c.debug (baseRows base) ++ rest)) ∧
    ∀ text ∈ Code.textsAll rest, Inert text ∧ text.toList.getLast? ≠ some '\x7b' := by
  unfold baseFunction
  rw [hbase, ← baseArms_eq]
  exact ⟨[_, _], rfl, inert_and_getLast?_of_all rfl⟩

theorem exists_baseFunction_of_none (hbase : c.baseState? = none) : ∃ body,
    baseFunction c = .block fallbackSignature body ∧ ∀ text ∈ Code.textsAll body, Inert text := by
  unfold baseFunction
  rw [hbase]
  exact ⟨[.line _], rfl, inert_of_all rfl⟩

theorem inert_rowArms (hc : c.WellFormed) (hn : UsableNames c) {debug : Bool}
    {rows : List (String × Transition)} {rest : List Code}
    (hrows : ∀ row ∈ rows, ArmText row.1 ∧ row.2 ∈ c.transitions)
    (hrest : ∀ text ∈ Code.textsAll rest, Inert text ∧ text.toList.getLast? ≠ some '\x7b') :
    ∀ text ∈ Code.textsAll (rowArms debug rows ++ rest), Inert text := by
  intro text htext
  rw [Code.textsAll_append] at htext
  rcases List.mem_append.1 htext with htext | htext
  · exact (armText_of_mem_rowArms hc hn hrows text htext).inert
  · exact (hrest text htext).1

theorem mem_texts_pushFunction (hc : c.WellFormed) (hn : UsableNames c) {text : String}
    (h : text ∈ (pushFunction c).texts) : Inert text ∨
      text = pushSignature ++ " \x7b" ∨ text = "match " ++ "(state, event)" ++ " \x7b" := by
  obtain ⟨front, rest, hpush, hfront, hrest⟩ := exists_pushFunction c
  rw [hpush] at h
  exact mem_texts_function (fun _ => mem_textsAll_matchBody hfront
    (inert_rowArms hc hn (armText_of_mem_localRows hn) hrest)) h

theorem mem_texts_baseFunction (hc : c.WellFormed) (hn : UsableNames c) {text : String}
    (h : text ∈ (baseFunction c).texts) : Inert text ∨
      text = fallbackSignature ++ " \x7b" ∨ text = "match " ++ "event" ++ " \x7b" := by
  cases hbase : c.baseState? with
  | none =>
    obtain ⟨body, hfun, hbody⟩ := exists_baseFunction_of_none hbase
    rw [hfun] at h
    exact mem_texts_function (fun text htext => Or.inl (hbody text htext)) h
  | some base =>
    have hmem : base ∈ c.states := Chart.mem_states_of_baseState? hbase
    obtain ⟨rest, hfun, hrest⟩ := exists_baseFunction hbase
    rw [hfun] at h
    exact mem_texts_function (fun _ => mem_textsAll_matchBody (fun _ hnil => absurd hnil (by simp))
      (inert_rowArms hc hn (armText_of_mem_baseRows hn hmem) hrest)) h

/-- All lines from the dispatch on are plain. -/
theorem plain_dispatchCode (hc : c.WellFormed) (hn : UsableNames c) :
    ∀ text ∈ Code.textsAll (dispatchCode c), Plain text := by
  intro text htext
  rw [dispatchCode, Code.textsAll_cons, Code.textsAll_cons, Code.textsAll_cons, List.mem_append,
    List.mem_append, List.mem_append] at htext
  rcases htext with hpush | hblank | hbase | htail
  · rcases mem_texts_pushFunction hc hn hpush with hinert | rfl | rfl
    · exact hinert.plain
    · exact plain_of_mem_dispatchHeads _ (by decide)
    · exact plain_of_mem_dispatchHeads _ (by decide)
  · rw [List.mem_singleton.1 hblank]
    decide
  · rcases mem_texts_baseFunction hc hn hbase with hinert | rfl | rfl
    · exact hinert.plain
    · exact plain_of_mem_dispatchHeads _ (by decide)
    · exact plain_of_mem_dispatchHeads _ (by decide)
  · exact (inert_machineTail c.debug text htail).plain

/-- The first function does not start again after its end. -/
theorem textsAll_ne_pushSignature (hc : c.WellFormed) (hn : UsableNames c) :
    ∀ text ∈ Code.textsAll (.blank :: baseFunction c :: machineTail c.debug),
      text ≠ pushSignature ++ " \x7b" := by
  intro text htext
  rw [Code.textsAll_cons, Code.textsAll_cons, List.mem_append, List.mem_append] at htext
  rcases htext with hblank | hbase | htail
  · rw [List.mem_singleton.1 hblank]
    decide
  · rcases mem_texts_baseFunction hc hn hbase with hinert | rfl | rfl
    · exact hinert.ne List.mem_cons_self
    · decide
    · decide
  · exact (inert_machineTail c.debug text htail).ne List.mem_cons_self

/-- The end of the generated source is read as it was written. -/
theorem readLines_sourceLines (hc : c.WellFormed) (hn : UsableNames c) (options : SourceOptions) :
    ∃ before depth closing, readLines (renderLines (sourceLines c options)) =
        before ++ ((Code.linesAll depth (dispatchCode c)).map CodeLine.toSource ++ closing) ∧
      ∀ line ∈ closing, line.text = "\x7d" := by
  obtain ⟨before, depth, closing, hlines, hclosing⟩ := endsWith_sourceLines c options
  have hplain : ∀ line ∈ Code.linesAll depth (dispatchCode c) ++ closing, Plain line.text := by
    intro line hline
    rcases List.mem_append.1 hline with hline | hline
    · refine plain_dispatchCode hc hn _ ?_
      rw [← Code.map_text_linesAll depth]
      exact List.mem_map_of_mem hline
    · rw [hclosing line hline]
      exact inert_brace.plain
  refine ⟨readLines (renderLines before), depth, closing.map CodeLine.toSource, ?_, ?_⟩
  · rw [hlines, readLines_append, readLines_renderLines hplain, List.map_append]
  · intro line hline
    obtain ⟨written, hwritten, rfl⟩ := List.mem_map.1 hline
    rw [CodeLine.toSource_text]
    exact hclosing written hwritten

/-- Words that are not among those of code are not read from its lines, nor up to the end of the
text, where only closing braces follow. -/
theorem text_ne_of_mem_end {codes : List Code} {head : String}
    (hcodes : ∀ text ∈ Code.textsAll codes, text ≠ head) (hhead : head ∈ dispatchHeads)
    {closing : List SourceLine} (hclosing : ∀ line ∈ closing, line.text = "\x7d") (depth : Nat) :
    ∀ line ∈ (Code.linesAll depth codes).map CodeLine.toSource ++ closing, line.text ≠ head := by
  intro line hline
  rcases List.mem_append.1 hline with hline | hline
  · exact hcodes _ (Code.text_mem_textsAll hline)
  · rw [hclosing line hline]
    exact inert_brace.ne hhead

/-- The arms of the states are read from the generated source. -/
theorem matchArms?_push (hc : c.WellFormed) (hn : UsableNames c) (options : SourceOptions) :
    matchArms? pushSignature "(state, event)" (renderLines (sourceLines c options)) =
      some ((localRows c).map (Arm.ofRow c.debug)) := by
  obtain ⟨before, depth, closing, hlines, hclosing⟩ := readLines_sourceLines hc hn options
  obtain ⟨front, rest, hpush, hfront, hrest⟩ := exists_pushFunction c
  rw [dispatchCode, Code.linesAll_cons, List.map_append, List.append_assoc, hpush] at hlines
  exact matchArms?_of_readLines hlines List.mem_cons_self (by decide) (by decide +kernel)
    hfront (inert_rowArms hc hn (armText_of_mem_localRows hn) hrest)
    (fun text htext => (hrest text htext).2)
    (text_ne_of_mem_end (textsAll_ne_pushSignature hc hn) List.mem_cons_self hclosing depth)

/-- The arms of the base state are read from the generated source; without a base state there is no
second match. -/
theorem matchArms?_fallback (hc : c.WellFormed) (hn : UsableNames c) (options : SourceOptions) :
    matchArms? fallbackSignature "event" (renderLines (sourceLines c options)) =
      c.baseState?.map fun base => (baseRows base).map (Arm.ofRow c.debug) := by
  obtain ⟨before, depth, closing, hlines, hclosing⟩ := readLines_sourceLines hc hn options
  have hhead : fallbackSignature ++ " \x7b" ∈ dispatchHeads := by decide
  have hafter := text_ne_of_mem_end
    (fun text htext => (inert_machineTail c.debug text htext).ne hhead) hhead hclosing depth
  have hsplit : before ++
      ((Code.linesAll depth (dispatchCode c)).map CodeLine.toSource ++ closing) =
      (before ++ (Code.linesAll depth [pushFunction c, .blank]).map CodeLine.toSource) ++
        (((baseFunction c).lines depth).map CodeLine.toSource ++
          ((Code.linesAll depth (machineTail c.debug)).map CodeLine.toSource ++ closing)) := by
    have hcode : dispatchCode c =
        [pushFunction c, .blank] ++ (baseFunction c :: machineTail c.debug) := rfl
    rw [hcode, Code.linesAll_append, Code.linesAll_cons depth (baseFunction c)]
    simp only [List.map_append, List.append_assoc]
  rw [hsplit] at hlines
  cases hbase : c.baseState? with
  | none =>
    obtain ⟨body, hfun, hbody⟩ := exists_baseFunction_of_none hbase
    have hmatch : "match event \x7b" ∈ dispatchHeads := by decide
    have hnone : ∀ line ∈ (Code.linesAll (depth + 1) body).map CodeLine.toSource,
        line.text ≠ "match event \x7b" := fun line hline =>
      (hbody _ (Code.text_mem_textsAll hline)).ne hmatch
    unfold matchArms?
    rw [hlines, hfun, lastBlock?_block (fun text htext => (hbody text htext).ne hhead) hafter]
    exact congrArg (Option.map readArms) (lastBlock?_of_not_mem hnone)
  | some base =>
    obtain ⟨rest, hfun, hrest⟩ := exists_baseFunction hbase
    have hmem : base ∈ c.states := Chart.mem_states_of_baseState? hbase
    rw [hfun] at hlines
    exact matchArms?_of_readLines hlines hhead (by decide) (by decide +kernel)
      (fun _ h => absurd h (by simp))
      (inert_rowArms hc hn (armText_of_mem_baseRows hn hmem) hrest)
      (fun text htext => (hrest text htext).2) hafter

end Generated

end Statechart.Source
