import Statechart.Proofs.Source.Clashes
import Statechart.Proofs.Source.References
set_option autoImplicit false

/-!
# Source: what the module declares

Reads from generated source what it declares (`ModuleView`): for each of the two enumerations its
variants, the array of all variants with its length, and the names of the variants; the test for
terminal states; the methods of the hooks; the initial state; and what the machine refers to.

These are written in different places and from different parts of the chart.  `declares_of_generate`
says that they agree with the chart, and so with each other.
-/

namespace Statechart.Source

/-! ## Readers -/

/-- What is read of an enumeration. -/
structure EnumView where
  /-- the variants, in order -/
  variants : List String
  /-- the length that the array of all variants is declared with -/
  size : Nat
  /-- the variants that the array lists -/
  all : List String
  /-- the arms of the function that gives the names: variant and name -/
  names : List (String × String)
  deriving DecidableEq, Repr, Inhabited

/-- An enumeration that lists its variants once everywhere. -/
def EnumView.ofVariants (variants : List String) : EnumView where
  variants := variants
  size := variants.length
  all := variants
  names := variants.map fun v => (v, v)

/-- How terminal states are told from others. -/
inductive TerminalTest where
  /-- no state is terminal -/
  | never
  | oneOf (ids : List String)
  deriving DecidableEq, Repr, Inhabited

/-- The test for the given states. -/
def TerminalTest.ofIds : List String → TerminalTest
  | [] => .never
  | id :: ids => .oneOf (id :: ids)

/-- What is read of a module. -/
structure ModuleView where
  state : EnumView
  event : EnumView
  terminal : TerminalTest
  hooks : List Declaration
  initial : String
  uses : List Reference
  deriving DecidableEq, Repr, Inhabited

/-- The only element of a list. -/
def only? {α : Type} : List α → Option α
  | [x] => some x
  | _ => none

/-- The variant that a path leads to. -/
def variant? (enumeration path : String) : Option String :=
  between? (enumeration ++ "::") "" path

/-- The length and the variants of an array of variants. -/
def array? (enumeration text : String) : Option (Nat × List String) :=
  (between? ("pub const ALL: [" ++ enumeration ++ "; ") "];" text).bind fun inside =>
    (cut? "] = [" inside).bind fun (size, listed) =>
      (numeral? size).bind fun n =>
        ((items ", " listed).mapM (variant? enumeration)).map fun all => (n, all)

/-- The variant and the name of an arm. -/
def nameArm? (enumeration text : String) : Option (String × String) :=
  (cut? " => \"" text).bind fun (path, rest) =>
    (variant? enumeration path).bind fun variant =>
      (between? "" "\"," rest).map fun name => (variant, name)

/-- The test that a line writes. -/
def terminalTest? (text : String) : Option TerminalTest :=
  if text = "false" then some .never
  else (between? "matches!(self, " ")" text).bind fun paths =>
    ((items " | " paths).mapM (variant? "State")).map .oneOf

/-- The enumeration that lines declare. -/
def enumeration? (name : String) (trees : List LineTree) : Option EnumView :=
  (within? ("pub enum " ++ name ++ " \x7b") trees).bind fun inside =>
    (within? ("impl " ++ name ++ " \x7b") trees).bind fun associated =>
      (within? ("pub fn name(self) -> &'static str" ++ " \x7b") associated).bind fun function =>
        (within? ("match self" ++ " \x7b") function).bind fun arms =>
          ((inside.map (·.text)).mapM (between? "" ",")).bind fun variants =>
            (only? ((associated.map (·.text)).filterMap (array? name))).bind fun (size, all) =>
              ((arms.map (·.text)).mapM (nameArm? name)).map fun names =>
                ⟨variants, size, all, names⟩

/-- The test for terminal states that lines declare. -/
def terminal? (trees : List LineTree) : Option TerminalTest :=
  (within? ("impl " ++ "State" ++ " \x7b") trees).bind fun associated =>
    (within? ("pub fn is_terminal(self) -> bool" ++ " \x7b") associated).bind fun function =>
      (only? (function.map (·.text))).bind terminalTest?

/-- The initial state of a machine. -/
def initial? (machine : List LineTree) : Option String :=
  only? ((machine.map (·.text)).filterMap
    (between? "pub const INITIAL_STATE: State = State::" ";"))

/-- What the module at a path of a text declares. -/
def moduleView? (className : String) (path : List String) (text : String) : Option ModuleView :=
  (below? path (readOutline text)).bind fun trees =>
    (enumeration? "State" trees).bind fun state =>
      (enumeration? "Event" trees).bind fun event =>
        (terminal? trees).bind fun terminal =>
          (within? ("pub trait Hooks: Sized" ++ " \x7b") trees).bind fun hooks =>
            (within? ("impl<H: Hooks> " ++ className ++ "<H>" ++ " \x7b") trees).bind fun machine =>
              (initial? machine).map fun initial =>
                ⟨state, event, terminal, declarations hooks, initial, LineTree.references machine⟩

/-! ## Lines that list variants -/

theorem variant?_variantPath (enumeration variant : String) :
    variant? enumeration (variantPath enumeration variant) = some variant := by
  have hpath := between?_append (enumeration ++ "::") variant ""
  rw [String.append_empty] at hpath
  exact hpath

theorem mapM_variant? (enumeration : String) (variants : List String) :
    (variants.map (variantPath enumeration)).mapM (variant? enumeration) = some variants := by
  rw [List.mapM_map]
  exact (mapM_eq_pure fun v _ => variant?_variantPath enumeration v).trans
    (congrArg some (List.map_id _))

/-- What stands in a path of two names. -/
theorem not_mem_variantPath {enumeration variant : String} (hname : IsIdentifier enumeration)
    (hvariant : IsIdentifier variant) {c : Char} (hc : isIdentifierPart c = false)
    (hcolon : c ≠ ':') : c ∉ (variantPath enumeration variant).toList := by
  have hcolons : c ∉ "::".toList := by simp [hcolon]
  rw [variantPath, String.toList_append, String.toList_append, List.mem_append, List.mem_append]
  exact not_or.2 ⟨not_or.2 ⟨hname.not_mem hc, hcolons⟩, hvariant.not_mem hc⟩

section Variants

variable {variants : List String} (hvariants : ∀ v ∈ variants, IsIdentifier v) {name : String}
  (hname : IsIdentifier name)

include hvariants hname

/-- A list of variants is read back, if the mark between them starts with a character that is part
of no path. -/
theorem items_variantPaths {mark : String} {c : Char} (hmark : mark.toList.head? = some c)
    (hc : isIdentifierPart c = false) (hcolon : c ≠ ':') :
    items mark (String.intercalate mark (variants.map (variantPath name))) =
      variants.map (variantPath name) := by
  refine items_intercalate hmark fun path hpath => ?_
  obtain ⟨v, hv, rfl⟩ := List.mem_map.1 hpath
  exact ⟨by simp [variantPath], not_mem_variantPath hname (hvariants v hv) hc hcolon⟩

theorem array?_allVariants :
    (allVariants name variants).heads.filterMap (array? name) = [(variants.length, variants)] := by
  have hsize : ']' ∉ (toString variants.length).toList := fun hmem =>
    absurd (isDigit_of_mem_toString hmem) (by decide)
  have hinside := between?_append ("pub const ALL: [" ++ name ++ "; ")
    (toString variants.length ++ ("] = ["
      ++ String.intercalate ", " (variants.map (variantPath name)))) "];"
  have harray : array? name ("pub const ALL: [" ++ name ++ "; " ++ toString variants.length
      ++ "] = [" ++ String.intercalate ", " (variants.map (variantPath name)) ++ "];") =
        some (variants.length, variants) := by
    simp only [String.append_assoc] at hinside ⊢
    unfold array?
    simp only [String.append_assoc]
    rw [hinside, Option.bind_some, cut?_append rfl hsize, Option.bind_some, numeral?_toString,
      Option.bind_some, items_variantPaths hvariants hname rfl (by decide) (by decide),
      mapM_variant?, Option.map_some]
  rw [allVariants, Code.heads, List.filterMap_cons, harray, List.filterMap_nil]

theorem mapM_nameArm? :
    (variants.map fun v => variantPath name v ++ " => \"" ++ v ++ "\",").mapM (nameArm? name) =
      some (variants.map fun v => (v, v)) := by
  rw [List.mapM_map]
  refine mapM_eq_pure fun v hv => ?_
  have hblank : ' ' ∉ (variantPath name v).toList :=
    not_mem_variantPath hname (hvariants v hv) (by decide) (by decide)
  have hspelled := between?_append "" v "\","
  rw [String.empty_append] at hspelled
  rw [Function.comp_apply, nameArm?, String.append_assoc, String.append_assoc,
    cut?_append rfl hblank]
  simp only [Option.bind_some, variant?_variantPath, hspelled, Option.map_some, Option.pure_def]

end Variants

/-! ## Looking up the parts of a module -/

theorem lastBody?_append (head : String) (first second : List Code) :
    lastBody? head (first ++ second) = (lastBody? head second).or (lastBody? head first) := by
  induction first with
  | nil => exact Option.or_none.symm
  | cons code first ih =>
    rw [List.cons_append, lastBody?_cons, ih, lastBody?_cons head code first, Option.or_assoc]

/-- Below the first line of a block stand the lines of its body. -/
theorem within?_outline {codes body : List Code} (h : ∀ code ∈ codes, code.Legible) {head : String}
    (hbody : lastBody? head codes = some body) (depth : Nat) :
    within? (head ++ " \x7b") (outline (Code.readBack depth codes)) =
      some (outline (Code.readBack (depth + 1) body)) := by
  rw [outline_of_legible h, within?_flatMap_trees (fun code hcode => (h code hcode).headed), hbody]
  rfl

theorem map_text_outline {codes : List Code} (h : ∀ code ∈ codes, code.Legible) (depth : Nat) :
    (outline (Code.readBack depth codes)).map (·.text) = codes.flatMap Code.heads := by
  rw [outline_of_legible h, map_text_flatMap_trees fun code hcode => (h code hcode).headed]

theorem outline_spaced {groups : List (List Code)} (h : ∀ code ∈ groups.flatten, code.Legible)
    (depth : Nat) :
    outline (Code.readBack depth (spaced groups)) = outline (Code.readBack depth groups.flatten) := by
  rw [outline_of_legible (legible_spaced h), flatMap_trees_spaced, outline_of_legible h]

/-- A line that declares no array. -/
theorem array?_eq_none {text : String} (h : "pub const ALL: [".toList.isPrefixOf text.toList = false)
    (name : String) : array? name text = none := by
  rw [array?, String.append_assoc, between?_eq_none h]
  rfl

theorem mapM_variantLines (variants : List String) :
    ((variantLines variants).flatMap Code.heads).mapM (between? "" ",") = some variants := by
  have hheads : (variantLines variants).flatMap Code.heads = variants.map (· ++ ",") := by
    rw [variantLines, List.flatMap_map, List.map_eq_flatMap]
    rfl
  rw [hheads, List.mapM_map]
  refine (mapM_eq_pure fun v _ => ?_).trans (congrArg some (List.map_id _))
  have hline := between?_append "" v ","
  rw [String.empty_append] at hline
  exact hline

section Enumeration

variable {variants : List String} (hvariants : ∀ v ∈ variants, IsIdentifier v) {name : String}
  (hname : IsIdentifier name)

include hvariants hname

/-- An enumeration is read back from its variants, its array and its names, if nothing else that is
associated with it looks like one of the last two. -/
theorem enumeration?_outline {codes : List Code} (hcodes : ∀ code ∈ codes, code.Legible)
    {others : List (List Code)} (hothers : ∀ code ∈ others.flatten, code.Legible)
    (hvariantLines : lastBody? ("pub enum " ++ name) codes = some (variantLines variants))
    (hassociated : lastBody? ("impl " ++ name) codes =
      some (spaced ([allVariants name variants] :: [nameFunction name variants] :: others)))
    (hfunctions : lastBody? "pub fn name(self) -> &'static str" others.flatten = none)
    (harrays : ∀ text ∈ others.flatten.flatMap Code.heads,
      "pub const ALL: [".toList.isPrefixOf text.toList = false) (depth : Nat) :
    enumeration? name (outline (Code.readBack depth codes)) = some (.ofVariants variants) := by
  let arms : List Code := variants.map fun v =>
    .line (variantPath name v ++ " => \"" ++ v ++ "\",")
  have hgroups : ∀ code ∈ ([allVariants name variants] :: [nameFunction name variants]
      :: others).flatten, code.Legible := by
    intro code hcode
    simp only [List.flatten_cons, List.mem_append, List.mem_singleton] at hcode
    rcases hcode with rfl | rfl | hcode
    · exact legible_allVariants hvariants hname
    · exact legible_nameFunction hvariants hname
    · exact hothers code hcode
  have hfunction : lastBody? "pub fn name(self) -> &'static str" ([allVariants name variants]
      :: [nameFunction name variants] :: others).flatten = some [.block "match self" arms] := by
    have hname : lastBody? "pub fn name(self) -> &'static str" [nameFunction name variants] =
        some [.block "match self" arms] := by
      simp [nameFunction, lastBody?, arms]
    rw [List.flatten_cons, List.flatten_cons, lastBody?_append, lastBody?_append, hfunctions, hname]
    rfl
  have hmatch : lastBody? "match self" [.block "match self" arms] = some arms := by
    simp [lastBody?]
  have harms : arms.flatMap Code.heads =
      variants.map fun v => variantPath name v ++ " => \"" ++ v ++ "\"," := by
    rw [List.flatMap_map, List.map_eq_flatMap]
    rfl
  have harray : (([allVariants name variants] :: [nameFunction name variants]
      :: others).flatten.flatMap Code.heads).filterMap (array? name) =
        [(variants.length, variants)] := by
    have hheads : ∀ text ∈ ["pub fn name(self) -> &'static str" ++ " \x7b", "\x7d" ++ ""],
        "pub const ALL: [".toList.isPrefixOf text.toList = false := by
      decide
    have hnames : (nameFunction name variants).heads.filterMap (array? name) = [] :=
      List.filterMap_eq_nil_iff.2 fun text htext => array?_eq_none (hheads text htext) name
    have hnone : (others.flatten.flatMap Code.heads).filterMap (array? name) = [] :=
      List.filterMap_eq_nil_iff.2 fun text htext => array?_eq_none (harrays text htext) name
    rw [List.flatten_cons, List.flatten_cons, List.flatMap_append, List.flatMap_append,
      List.flatMap_singleton, List.flatMap_singleton, List.filterMap_append,
      List.filterMap_append, array?_allVariants hvariants hname, hnames, hnone]
    rfl
  unfold enumeration?
  rw [within?_outline hcodes hvariantLines, Option.bind_some, within?_outline hcodes hassociated,
    Option.bind_some, outline_spaced hgroups, within?_outline hgroups hfunction, Option.bind_some,
    within?_outline (legible_nameMatch hvariants hname) hmatch, Option.bind_some,
    map_text_outline (legible_variantLines hvariants), mapM_variantLines, Option.bind_some,
    map_text_outline hgroups, harray,
    map_text_outline (legible_nameArms hvariants hname), harms]
  simp only [only?, Option.bind_some, mapM_nameArm? hvariants hname, Option.map_some]
  rfl

end Enumeration

/-! ## The module of a chart -/

/-- What the module of a chart declares. -/
def chartView (c : Chart) : ModuleView where
  state := .ofVariants c.stateIds
  event := .ofVariants c.events
  terminal := .ofIds (c.terminalStates.map (·.id))
  hooks := (chartScopes c).hooks
  initial := c.initial
  uses := Code.references (machineFunctions c).flatten

section Chart

variable {c : Chart} (hn : UsableNames c) (hclass : IsIdentifier c.className) (hc : c.WellFormed)

include hn

/-- The test for terminal states is read back. -/
theorem terminalTest?_terminalLine :
    terminalTest? (terminalLine c) = some (.ofIds (c.terminalStates.map (·.id))) := by
  have hids : ∀ id ∈ c.terminalStates.map (·.id), IsIdentifier id := by
    intro id hid
    obtain ⟨s, hs, rfl⟩ := List.mem_map.1 hid
    exact hn.terminal s hs
  have hpaths : (c.terminalStates.map fun s => variantPath "State" s.id) =
      (c.terminalStates.map (·.id)).map (variantPath "State") := by
    rw [List.map_map]
    rfl
  unfold terminalLine
  rw [hpaths]
  generalize c.terminalStates.map (·.id) = ids at hids
  cases ids with
  | nil => rfl
  | cons id ids =>
    have hne : ¬ "matches!(self, " ++ (String.intercalate " | "
        ((id :: ids).map (variantPath "State")) ++ ")") = "false" := append_ne (by decide)
    have hitems := items_variantPaths hids (by decide : IsIdentifier "State")
      (rfl : " | ".toList.head? = some ' ') (by decide) (by decide)
    rw [if_neg (by simp), String.append_assoc, terminalTest?, if_neg hne, between?_append,
      Option.bind_some, hitems, mapM_variant?]
    rfl

include hclass hc

theorem terminal?_outline (depth : Nat) :
    terminal? (outline (Code.readBack depth (moduleItems c))) = some (chartView c).terminal := by
  have hlegible := legible_moduleItems hn hclass hc
  have hfunctions := legible_stateFunctions hn
  obtain ⟨_, _, hstate, _, _⟩ := lastBody?_moduleItems c
  have hfunction : lastBody? "pub fn is_terminal(self) -> bool" (stateFunctions c).flatten =
      some [.line (terminalLine c)] := by
    have hlast : lastBody? "pub fn is_terminal(self) -> bool" (terminalFunction c) =
        some [.line (terminalLine c)] := by
      simp [terminalFunction, lastBody?, terminalLine]
    rw [stateFunctions, List.flatten_cons, List.flatten_cons, List.flatten_singleton,
      lastBody?_append, lastBody?_append, hlast]
    rfl
  unfold terminal?
  rw [within?_outline hlegible hstate, Option.bind_some, outline_spaced hfunctions,
    within?_outline hfunctions hfunction, Option.bind_some,
    map_text_outline (legible_terminalLine hn)]
  exact terminalTest?_terminalLine hn

theorem enumeration?_state (depth : Nat) :
    enumeration? "State" (outline (Code.readBack depth (moduleItems c))) =
      some (chartView c).state := by
  have hothers : ∀ code ∈ [terminalFunction c].flatten, code.Legible := by
    rw [List.flatten_singleton]
    exact legible_terminalFunction hn
  have hfunctions : lastBody? "pub fn name(self) -> &'static str" [terminalFunction c].flatten =
      none := by
    simp [terminalFunction, lastBody?]
  have harrays : ∀ text ∈ ["/// True for states without outgoing transitions",
      "pub fn is_terminal(self) -> bool" ++ " \x7b", "\x7d" ++ ""],
      "pub const ALL: [".toList.isPrefixOf text.toList = false := by
    decide
  obtain ⟨_, hvariants, hassociated, _, _⟩ := lastBody?_moduleItems c
  exact enumeration?_outline hn.state (by decide) (legible_moduleItems hn hclass hc) hothers
    hvariants hassociated hfunctions harrays depth

theorem enumeration?_event (depth : Nat) :
    enumeration? "Event" (outline (Code.readBack depth (moduleItems c))) =
      some (chartView c).event := by
  have hothers : ∀ code ∈ ([] : List (List Code)).flatten, code.Legible := fun _ hcode =>
    absurd hcode List.not_mem_nil
  obtain ⟨_, _, _, hvariants, hassociated⟩ := lastBody?_moduleItems c
  exact enumeration?_outline hn.event (by decide) (legible_moduleItems hn hclass hc) hothers
    hvariants hassociated rfl (fun _ htext => absurd htext List.not_mem_nil) depth

/-- The machine is the last item of the module. -/
theorem within?_machine (depth : Nat) :
    within? ("impl<H: Hooks> " ++ c.className ++ "<H>" ++ " \x7b")
        (outline (Code.readBack depth (moduleItems c))) =
      some (outline (Code.readBack (depth + 1) (machineFunctions c).flatten)) := by
  have hmachine : lastBody? ("impl<H: Hooks> " ++ c.className ++ "<H>") (moduleItems c) =
      some (spaced (machineFunctions c)) := by
    have hlast : lastBody? ("impl<H: Hooks> " ++ c.className ++ "<H>") (machineItems c).flatten =
        some (spaced (machineFunctions c)) := by
      simp [machineItems, machineStruct, lastBody?, machineFunctions]
    rw [moduleItems, List.flatten_append, lastBody?_append, hlast]
    rfl
  rw [within?_outline (legible_moduleItems hn hclass hc) hmachine,
    outline_spaced (legible_machineFunctions hn hc)]

omit hn hclass hc in
/-- Beside the constant, no line of the machine looks like it. -/
theorem filterMap_machineHeads (c : Chart) :
    ((machineFunctions c).flatten.flatMap Code.heads).filterMap
      (between? "pub const INITIAL_STATE: State = State::" ";") = [c.initial] := by
  have hheads : (machineFunctions c).flatten.flatMap Code.heads =
      ("pub const INITIAL_STATE: State = State::" ++ c.initial ++ ";") ::
        ((machineFunctions { (default : Chart) with debug := c.debug }).flatten.flatMap
          Code.heads).tail := by
    cases hdebug : c.debug <;> simp only [machineFunctions, hdebug] <;> rfl
  have hnone : ∀ debug, ((machineFunctions { (default : Chart) with debug := debug }).flatten.flatMap
      Code.heads).tail.filterMap (between? "pub const INITIAL_STATE: State = State::" ";") = [] :=
    fun debug => filterMap_between?_eq_nil (by cases debug <;> rfl) _
  have hinitial := between?_append "pub const INITIAL_STATE: State = State::" c.initial ";"
  rw [hheads, List.filterMap_cons, String.append_assoc, hinitial, hnone]

/-- The module of a chart is read as it was written. -/
theorem moduleView?_sourceLines {options : SourceOptions} (hm : ModuleNames c options) :
    moduleView? c.className (modulePath c options) (renderLines (sourceLines c options)) =
      some (chartView c) := by
  obtain ⟨depth, hbelow⟩ := exists_below?_modulePath hm hc hn
  have hlegible := legible_moduleItems hn hclass hc
  have hmachine := legible_machineFunctions hn hc
  obtain ⟨hhooks, _⟩ := lastBody?_moduleItems c
  rw [← outline_of_legible hlegible] at hbelow
  unfold moduleView?
  rw [hbelow, Option.bind_some, enumeration?_state hn hclass hc, Option.bind_some,
    enumeration?_event hn hclass hc, Option.bind_some, terminal?_outline hn hclass hc,
    Option.bind_some, within?_outline hlegible hhooks, Option.bind_some,
    within?_machine hn hclass hc, Option.bind_some, initial?, map_text_outline hmachine,
    filterMap_machineHeads, references_outline, outline_of_legible (legible_hookMethods hn hclass),
    declarations_of_legible (legible_hookMethods hn hclass), declarations_hookMethods hn]
  rfl

end Chart

/-! ## Agreement with the chart -/

/-- A module declares what is referred to. -/
def ModuleView.Declares (view : ModuleView) (r : Reference) : Prop :=
  (r.mark = "State::" ∧ r.name ∈ view.state.variants) ∨
    (r.mark = "Event::" ∧ r.name ∈ view.event.variants) ∨
    (r.mark = "hooks." ∧ ⟨"fn", r.name⟩ ∈ view.hooks)

/-- A module declares what a chart has, and its machine refers to nothing else. -/
structure ModuleView.Mirrors (view : ModuleView) (c : Chart) : Prop where
  /-- the states, in document order -/
  state : view.state = .ofVariants (c.states.map (·.id))
  nodup_state : view.state.variants.Nodup
  /-- the events, in the order of their names -/
  event : view.event = .ofVariants view.event.variants
  pairwise_event : view.event.variants.Pairwise (· < ·)
  mem_event : ∀ event, event ∈ view.event.variants ↔
    ∃ s ∈ c.states, ∃ t ∈ s.transitions, t.event = event
  /-- the states without transitions -/
  terminal : view.terminal = .ofIds ((c.states.filter (·.transitions.isEmpty)).map (·.id))
  /-- the method for changes of state, and one for each action -/
  hooks : ∃ actions : List String, actions.Nodup ∧
    (∀ action, action ∈ actions ↔ ∃ s ∈ c.states, ∃ t ∈ s.transitions, action ∈ t.actions) ∧
    view.hooks = ⟨"fn", "on_state_change"⟩ :: actions.map fun action => ⟨"fn", hookName action⟩
  nodup_hooks : (view.hooks.map (·.name)).Nodup
  initial : view.initial = c.initial
  declares : ∀ r ∈ view.uses, view.Declares r
  /-- the machine refers to what the transitions need that can be taken -/
  uses : ∀ s ∈ c.states, ∀ t, s.transitions.find? (·.event = t.event) = some t →
    ∀ r ∈ [⟨"State::", s.id⟩, ⟨"Event::", t.event⟩] ++ transitionReferences t, r ∈ view.uses

section Mirrors

variable {c : Chart} (hc : c.WellFormed) (hn : UsableNames c)

include hc

theorem declares_of_mem_transitionReferences {t : Transition} (ht : t ∈ c.transitions)
    {r : Reference} (hr : r ∈ transitionReferences t) : (chartView c).Declares r := by
  rcases List.mem_append.1 hr with hr | hr
  · obtain ⟨action, haction, rfl⟩ := List.mem_map.1 hr
    have hmem : action ∈ c.actions := Chart.mem_actions.2 ⟨t, ht, haction⟩
    exact .inr (.inr ⟨rfl, List.mem_cons_of_mem _ (List.mem_map_of_mem hmem)⟩)
  · rw [List.mem_singleton.1 hr]
    exact .inl ⟨rfl, hc.target_mem t ht⟩

include hn

/-- Everything that the machine refers to is declared. -/
theorem declares_of_mem_uses {r : Reference} (hr : r ∈ (chartView c).uses) :
    (chartView c).Declares r := by
  have htaken : ∀ s ∈ c.states, ∀ t ∈ firstPerEvent s.transitions, t ∈ c.transitions :=
    fun s hs t ht =>
      Chart.mem_transitions.2 ⟨s, hs, List.mem_of_find?_eq_some (mem_firstPerEvent.1 ht)⟩
  have hevent : ∀ t ∈ c.transitions, (chartView c).Declares ⟨"Event::", t.event⟩ := fun t ht =>
    .inr (.inl ⟨rfl, Chart.mem_events.2 ⟨t, ht, rfl⟩⟩)
  have hchange : (chartView c).Declares ⟨"hooks.", "on_state_change"⟩ :=
    .inr (.inr ⟨rfl, List.mem_cons_self⟩)
  rw [chartView, references_machineFunctions hc hn] at hr
  simp only [List.mem_append, List.mem_cons, List.mem_flatMap, List.not_mem_nil, or_false,
    Option.mem_toList] at hr
  rcases hr with (((rfl | rfl) | ⟨s, hs, t, ht, (rfl | rfl) | hr⟩) | ⟨s, hs, t, ht, rfl | hr⟩) | rfl
  · exact .inl ⟨rfl, hc.initial_mem⟩
  · exact hchange
  · exact .inl ⟨rfl, List.mem_map_of_mem hs⟩
  · exact hevent t (htaken s hs t ht)
  · exact declares_of_mem_transitionReferences hc (htaken s hs t ht) hr
  · exact hevent t (htaken s (Chart.mem_states_of_baseState? hs) t ht)
  · exact declares_of_mem_transitionReferences hc
      (htaken s (Chart.mem_states_of_baseState? hs) t ht) hr
  · exact hchange

theorem mirrors_chartView : (chartView c).Mirrors c where
  state := rfl
  nodup_state := hc.nodup_ids
  event := rfl
  pairwise_event := Text.pairwise_orderedSet _
  mem_event event := by
    have hmem : event ∈ (chartView c).event.variants ↔ ∃ t ∈ c.transitions, t.event = event :=
      Chart.mem_events
    rw [hmem]
    grind [Chart.mem_transitions]
  terminal := rfl
  hooks := by
    refine ⟨c.actions, nodup_orderedSet _, fun action => ?_, rfl⟩
    rw [Chart.mem_actions]
    grind [Chart.mem_transitions]
  nodup_hooks := Source.nodup_hooks hn
  initial := rfl
  declares _ hr := declares_of_mem_uses hc hn hr
  uses s hs t ht r hr := by
    have hmem : r ∈ c.states.flatMap fun s => (firstPerEvent s.transitions).flatMap fun t =>
        [⟨"State::", s.id⟩, ⟨"Event::", t.event⟩] ++ transitionReferences t :=
      List.mem_flatMap.2 ⟨s, hs, List.mem_flatMap.2 ⟨t, mem_firstPerEvent.2 ht, hr⟩⟩
    rw [chartView, references_machineFunctions hc hn]
    exact List.mem_append_left _ (List.mem_append_left _ (List.mem_append_right _ hmem))

end Mirrors

/-- **Declarations of generated source.**  What the source of a chart declares is read from its
text: the enumerations of states and events with their arrays and names, the test for terminal
states, the methods of the hooks and the initial state are those of the chart, and all variants and
methods that the machine uses are among them. -/
theorem declares_of_generate {c : Chart} (hd : c.IsDocument) {options : SourceOptions}
    {text : String} (h : generate c options = .ok text) :
    ∃ view, moduleView? c.className (modulePath c options) text = some view ∧ view.Mirrors c := by
  have hm := moduleNames_of_checkNames (checkNames_of_generate h)
  obtain ⟨hn, rfl⟩ := generate_eq_ok h
  exact ⟨chartView c, moduleView?_sourceLines hn hm.className hd.wellFormed hm,
    mirrors_chartView hd.wellFormed hn⟩

/-- The source of the door lists its four states, of which one is terminal. -/
theorem declares_of_generate_door :
    generate .door {} = .ok (renderLines (sourceLines .door {})) ∧
      ∃ view, moduleView? "Door" (modulePath .door {}) (renderLines (sourceLines .door {})) =
          some view ∧ view.Mirrors .door ∧
        view.state.all = ["Closed", "Opened", "Broken", "Anywhere"] ∧
        view.terminal = .oneOf ["Broken"] ∧ ⟨"State::", "Opened"⟩ ∈ view.uses := by
  have hgenerate : generate .door {} = .ok (renderLines (sourceLines .door {})) := rfl
  obtain ⟨view, hview, hmirrors⟩ := declares_of_generate Chart.isDocument_door hgenerate
  refine ⟨hgenerate, view, hview, hmirrors, congrArg EnumView.all hmirrors.state,
    hmirrors.terminal, ?_⟩
  exact hmirrors.uses ⟨"Opened", [⟨"Close", "Closed", []⟩]⟩ (by decide) ⟨"Close", "Closed", []⟩
    (by decide) _ List.mem_cons_self

end Statechart.Source
