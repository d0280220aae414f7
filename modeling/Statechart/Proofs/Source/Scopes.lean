import Mathlib.Data.List.Basic
import Statechart.Proofs.Source.Legible
set_option autoImplicit false

/-!
# Source: scopes

The names that the generated module declares, scope by scope, as they are read from its text: the
items and imports of the module, the methods of the trait of hooks, and the names that are reached
through the two enumerations.

A module that is generated declares what `chartScopes` lists (`scopes?_sourceLines`): whatever else
stands in the text, its lines are read as they were written, and the module is found in its
packages.
-/

namespace Statechart.Source

/-! ## Readers -/

/-- A name that is declared, and the word that declares it. -/
structure Declaration where
  keyword : String
  name : String
  deriving DecidableEq, Repr, Inhabited

/-- Words that declare the name that stands after them. -/
def declaringWords : List String :=
  ["const", "enum", "fn", "mod", "static", "struct", "trait", "type"]

/-- The name that characters start with. -/
def leadingName (cs : List Char) : String :=
  String.ofList (cs.takeWhile isIdentifierPart)

/-- The name that a path ends with. -/
def lastName (cs : List Char) : String :=
  String.ofList ((cs.reverse.dropWhile (!isIdentifierPart ·)).takeWhile isIdentifierPart).reverse

/-- What a word declares, given what stands after it. -/
def declaredBy? (word : String) (rest : List Char) : Option Declaration :=
  if word = "use" then some ⟨word, lastName rest⟩
  else if word ∈ declaringWords then some ⟨word, leadingName rest⟩
  else none

/-- Characters without the word that makes an item public. -/
def dropPub (cs : List Char) : List Char :=
  if "pub ".toList.isPrefixOf cs then cs.drop 4 else cs

/-- What a line declares. -/
def declaration? (text : String) : Option Declaration :=
  let words := dropPub text.toList
  declaredBy? (String.ofList (words.takeWhile (· ≠ ' '))) (words.dropWhile (· ≠ ' ')).tail

/-- What lines declare. -/
def declarations (trees : List LineTree) : List Declaration :=
  (trees.map (·.text)).filterMap declaration?

/-- The variants of an enumeration, one on each line. -/
def variantsOf (trees : List LineTree) : List Declaration :=
  (trees.map (·.text)).map fun text => ⟨"variant", leadingName text.toList⟩

/-- The names that are reached through an enumeration: its variants, then what is associated with
it. -/
def enumScope? (name : String) (trees : List LineTree) : Option (List Declaration) :=
  (within? ("pub enum " ++ name ++ " \x7b") trees).bind fun variants =>
    (within? ("impl " ++ name ++ " \x7b") trees).map fun associated =>
      variantsOf variants ++ declarations associated

/-- What a name denotes that is reached through an enumeration.  A variant hides what is associated
under the same name. -/
def denoted? (scope : List Declaration) (name : String) : Option Declaration :=
  scope.find? (·.name = name)

/-- The scopes of a generated module. -/
structure Scopes where
  /-- items and imports of the module -/
  items : List Declaration
  /-- methods of the trait of hooks -/
  hooks : List Declaration
  /-- names reached through the enumeration of states -/
  state : List Declaration
  /-- names reached through the enumeration of events -/
  event : List Declaration
  deriving DecidableEq, Repr, Inhabited

/-- The scopes of the module at a path of a text. -/
def scopes? (path : List String) (text : String) : Option Scopes :=
  (below? path (readOutline text)).bind fun trees =>
    (within? ("pub trait Hooks: Sized" ++ " \x7b") trees).bind fun hooks =>
      (enumScope? "State" trees).bind fun state =>
        (enumScope? "Event" trees).map fun event =>
          ⟨declarations trees, declarations hooks, state, event⟩

/-- Where the module of a chart stands: inside its packages. -/
def modulePath (c : Chart) (options : SourceOptions) : List String :=
  (packages c options ++ [moduleName c.className]).map moduleHead

/-- The scopes of the module of a chart. -/
def chartScopes (c : Chart) : Scopes where
  items :=
    [⟨"use", "Cell"⟩, ⟨"use", "fmt"⟩, ⟨"use", "FromStr"⟩, ⟨"enum", "State"⟩, ⟨"enum", "Event"⟩,
      ⟨"enum", "StateError"⟩, ⟨"trait", "DebugLogger"⟩, ⟨"trait", "Hooks"⟩, ⟨"enum", "Lifecycle"⟩,
      ⟨"struct", "PushGuard"⟩, ⟨"struct", c.className⟩]
  hooks := ⟨"fn", "on_state_change"⟩ :: c.actions.map fun action => ⟨"fn", hookName action⟩
  state := c.stateIds.map (⟨"variant", ·⟩) ++
    [⟨"const", "ALL"⟩, ⟨"fn", "name"⟩, ⟨"fn", "is_terminal"⟩]
  event := c.events.map (⟨"variant", ·⟩) ++ [⟨"const", "ALL"⟩, ⟨"fn", "name"⟩]

/-! ## What the items declare -/

/-- What legible code declares at its own depth. -/
theorem declarations_of_legible {codes : List Code} (h : ∀ code ∈ codes, code.Legible)
    (depth : Nat) :
    declarations (codes.flatMap (Code.trees depth)) =
      (codes.flatMap Code.heads).filterMap declaration? := by
  unfold declarations
  rw [map_text_flatMap_trees fun code hcode => (h code hcode).headed]

/-- Words that start otherwise are others. -/
theorem append_ne {front back text : String}
    (h : (bytesOf front).isPrefixOf (bytesOf text) = false) : ¬ front ++ back = text := by
  rintro rfl
  have hstarts : front.toList <+: (front ++ back).toList := by
    rw [String.toList_append]
    exact List.prefix_append _ _
  rw [isPrefixOf_bytesOf hstarts] at h
  cases h

/-- The blocks of the module that declare further names. -/
theorem lastBody?_moduleItems (c : Chart) :
    lastBody? "pub trait Hooks: Sized" (moduleItems c) = some (hookMethods c) ∧
      lastBody? ("pub enum " ++ "State") (moduleItems c) = some (variantLines c.stateIds) ∧
      lastBody? ("impl " ++ "State") (moduleItems c) = some (spaced (stateFunctions c)) ∧
      lastBody? ("pub enum " ++ "Event") (moduleItems c) = some (variantLines c.events) ∧
      lastBody? ("impl " ++ "Event") (moduleItems c) = some (spaced (eventFunctions c)) := by
  simp only [stateFunctions, eventFunctions, hookMethods, variantLines, moduleItems, preambleItems,
    stateItems, eventItems, errorItems, traitItems, machineItems, enumDeclaration, displayByName,
    hooksTrait, machineStruct, eventFromName, List.flatten_cons, List.flatten_nil,
    List.cons_append, List.nil_append, List.append_nil, lastBody?, String.append_assoc]
  simp (disch := decide) only [append_ne, if_false, Option.or]
  simp

/-- A name is read up to the first character that cannot stand in one. -/
theorem leadingName_append {name : String} (h : ∀ c ∈ name.toList, isIdentifierPart c = true)
    {c : Char} (hc : isIdentifierPart c = false) (rest : List Char) :
    leadingName (name.toList ++ c :: rest) = name := by
  unfold leadingName
  rw [List.takeWhile_append_of_pos h, List.takeWhile_cons_of_neg (by simp [hc]), List.append_nil,
    String.ofList_toList]

/-- What the items of the module declare. -/
theorem declarations_moduleItems {c : Chart} (hclass : IsIdentifier c.className) :
    ((moduleItems c).flatMap Code.heads).filterMap declaration? = (chartScopes c).items := by
  have hcomment : ∀ text, declaration? ("/// States of `" ++ text) = none ∧
      declaration? ("/// Events accepted by `" ++ text) = none ∧
      declaration? ("/// Side effects supplied by the owner of a `" ++ text) = none ∧
      declaration? ("impl<H: Hooks> " ++ text) = none := by
    intro text
    unfold declaration?
    simp only [String.toList_append]
    exact ⟨rfl, rfl, rfl, rfl⟩
  have hstruct : declaration? ("pub struct " ++ (c.className ++ ("<H>" ++ " \x7b"))) =
      some ⟨"struct", c.className⟩ := by
    have hname := leadingName_append hclass.isIdentifierPart (c := '<') (by decide)
      "H> \x7b".toList
    unfold declaration?
    simp only [String.toList_append]
    exact congrArg (fun name => some (Declaration.mk "struct" name)) hname
  simp only [moduleItems, preambleItems, stateItems, eventItems, errorItems, traitItems,
    machineItems, enumDeclaration, displayByName, hooksTrait, machineStruct, eventFromName,
    List.flatten_cons, List.flatten_nil, List.cons_append, List.nil_append, List.append_nil,
    List.flatMap_cons, List.flatMap_nil, Code.heads, String.append_assoc, List.filterMap_cons,
    (hcomment _).1, (hcomment _).2.1, (hcomment _).2.2.1, (hcomment _).2.2.2, hstruct]
  rfl

/-- The variants of an enumeration are read back. -/
theorem variantsOf_lines {variants : List String} (h : ∀ v ∈ variants, IsIdentifier v)
    (depth : Nat) :
    variantsOf (outline (Code.readBack depth (variantLines variants))) =
      variants.map (⟨"variant", ·⟩) := by
  have hheaded : ∀ code ∈ variantLines variants, code.Headed := fun code hcode =>
    (legible_variantLines h code hcode).headed
  have hheads : (variantLines variants).flatMap Code.heads = variants.map (· ++ ",") := by
    rw [variantLines, List.flatMap_map, List.map_eq_flatMap]
    rfl
  unfold variantsOf
  rw [outline_readBack hheaded, map_text_flatMap_trees hheaded, hheads, List.map_map]
  refine List.map_congr_left fun v hv => ?_
  have hname := leadingName_append (h v hv).isIdentifierPart (c := ',') (by decide) []
  simp only [Function.comp_apply, String.toList_append]
  exact congrArg (Declaration.mk "variant") hname

/-- What is associated with an enumeration is read from the heads of its functions. -/
theorem declarations_spaced {groups : List (List Code)}
    (h : ∀ code ∈ groups.flatten, code.Legible) (depth : Nat) :
    declarations (outline (Code.readBack depth (spaced groups))) =
      (groups.flatten.flatMap Code.heads).filterMap declaration? := by
  rw [outline_of_legible (legible_spaced h), flatMap_trees_spaced, declarations_of_legible h]

theorem declaration?_allVariants (name : String) (variants : List String) :
    (allVariants name variants).heads.filterMap declaration? = [⟨"const", "ALL"⟩] := by
  have hall : ∀ rest, declaration? ("pub const ALL: [" ++ rest) = some ⟨"const", "ALL"⟩ := by
    intro rest
    unfold declaration?
    rw [String.toList_append]
    rfl
  simp only [allVariants, Code.heads, String.append_assoc, List.filterMap_cons, hall,
    List.filterMap_nil]

/-- What is associated with the enumeration of states. -/
theorem declarations_stateFunctions (c : Chart) :
    ((stateFunctions c).flatten.flatMap Code.heads).filterMap declaration? =
      [⟨"const", "ALL"⟩, ⟨"fn", "name"⟩, ⟨"fn", "is_terminal"⟩] := by
  simp only [stateFunctions, List.flatten_cons, List.flatten_nil, List.append_nil,
    List.flatMap_append, List.flatMap_singleton, List.filterMap_append, declaration?_allVariants]
  rfl

/-- What is associated with the enumeration of events. -/
theorem declarations_eventFunctions (c : Chart) :
    ((eventFunctions c).flatten.flatMap Code.heads).filterMap declaration? =
      [⟨"const", "ALL"⟩, ⟨"fn", "name"⟩] := by
  simp only [eventFunctions, List.flatten_cons, List.flatten_nil, List.append_nil,
    List.flatMap_append, List.flatMap_singleton, List.filterMap_append, declaration?_allVariants]
  rfl

theorem declaration?_stateChange (rest : String) :
    declaration? ("fn on_state_change(&self, fsm: &" ++ rest) = some ⟨"fn", "on_state_change"⟩ := by
  unfold declaration?
  rw [String.toList_append]
  rfl

theorem declaration?_hook {action : String} (h : IsIdentifier action) (rest : String) :
    declaration? ("fn " ++ (hookName action ++ ("(&self, fsm: &" ++ rest))) =
      some ⟨"fn", hookName action⟩ := by
  have hname := leadingName_append (isIdentifierPart_of_mem_hookName h) (c := '(') (by decide)
    ("&self, fsm: &".toList ++ rest.toList)
  unfold declaration?
  rw [String.toList_append, String.toList_append, String.toList_append]
  exact congrArg (fun name => some (Declaration.mk "fn" name)) hname

/-- What the methods of the trait of hooks are called. -/
theorem declarations_hookMethods {c : Chart} (hn : UsableNames c) :
    ((hookMethods c).flatMap Code.heads).filterMap declaration? = (chartScopes c).hooks := by
  have hhooks : ((c.actions.map (hookSignature c.className)).flatMap Code.heads).filterMap
      declaration? = c.actions.map fun action => ⟨"fn", hookName action⟩ := by
    simp only [List.flatMap_map, hookSignature, Code.heads, String.append_assoc,
      ← List.map_eq_flatMap, List.filterMap_map]
    refine List.filterMap_eq_map_iff_forall_eq_some.2 fun action haction => ?_
    rw [Function.comp_apply]
    exact declaration?_hook (hn.action action haction) _
  rw [hookMethods, List.flatMap_cons, List.filterMap_append, hhooks]
  simp only [Code.heads, String.append_assoc, List.filterMap_cons, declaration?_stateChange,
    List.filterMap_nil]
  rfl

/-! ## The module of a text -/

/-- The inside of a module that is the last at its depth. -/
theorem within?_module {name : String} (h : IsIdentifier name) (body : List Code)
    (before : List LineTree) (depth : Nat) :
    within? (moduleHead name) (before ++ (Code.block ("pub mod " ++ name) body).trees depth) =
      some (outline (Code.readBack (depth + 1) body)) := by
  have hheaded : (Code.block ("pub mod " ++ name) body).Headed := ⟨plain_moduleHead h, rfl⟩
  have hfound := within?_trees hheaded ("pub mod " ++ name) depth
  rw [lastBody?, lastBody?, if_pos rfl, Option.none_or, Option.map_some] at hfound
  rw [within?_append, moduleHead, hfound]
  rfl

/-- What stands in packages whose names are identifiers is found by the path of the packages. -/
theorem exists_below?_nest {names : List String} (hnames : ∀ name ∈ names, IsIdentifier name)
    (code : Code) (path : List String) (depth : Nat) (before : List LineTree) :
    ∃ front inner, below? (names.map moduleHead ++ path) (before ++ (nest names code).trees depth) =
      below? path (front ++ code.trees inner) := by
  induction names generalizing depth before with
  | nil => exact ⟨before, depth, rfl⟩
  | cons name names ih =>
    obtain ⟨front, inner, hinner⟩ :=
      ih (fun next hnext => hnames next (List.mem_cons_of_mem _ hnext)) (depth + 1) []
    refine ⟨front, inner, ?_⟩
    have hfound := within?_module (hnames name List.mem_cons_self) [nest names code] before depth
    rw [List.map_cons, List.cons_append, below?]
    exact (congrArg (Option.bind · _) hfound).trans hinner

section Text

variable {c : Chart} {options : SourceOptions} (hm : ModuleNames c options)

include hm

/-- The generated source ends with the outline of the module in its packages. -/
theorem exists_readOutline (hc : c.WellFormed) (hn : UsableNames c) :
    ∃ before, readOutline (renderLines (sourceLines c options)) =
      before ++ (nest (packages c options) (moduleCode c)).trees 0 := by
  have hnest := legible_nest hn hm hc
  have hheaded : ∀ code ∈ [nest (packages c options) (moduleCode c)], code.Headed := by
    intro code hcode
    rw [List.mem_singleton.1 hcode]
    exact hnest.headed
  have hunbroken : ∀ line ∈ (nest (packages c options) (moduleCode c)).lines 0,
      '\n' ∉ line.text.toList := fun line hline =>
    hnest.unbroken line.text (Code.text_mem_texts hline)
  have hlines : ((nest (packages c options) (moduleCode c)).lines 0).map CodeLine.read =
      (Code.linesAll 0 [nest (packages c options) (moduleCode c)]).map CodeLine.read := by
    rw [Code.linesAll_cons, Code.linesAll_nil, List.append_nil]
  unfold readOutline sourceLines
  rw [readLines_append, List.filter_append, readLines_renderLines_of_not_mem hunbroken, hlines,
    outline_append]
  · exact ⟨_, rfl⟩
  · -- the code starts at the margin
    intro line hline before _
    have hindent : line.indent = 4 * 0 := Code.indent_head?_readBack hheaded line hline
    omega

/-- The module is found in the generated source, with its items. -/
theorem exists_below?_modulePath (hc : c.WellFormed) (hn : UsableNames c) :
    ∃ depth, below? (modulePath c options) (readOutline (renderLines (sourceLines c options))) =
      some ((moduleItems c).flatMap (Code.trees depth)) := by
  obtain ⟨before, houtline⟩ := exists_readOutline hm hc hn
  obtain ⟨front, depth, hnest⟩ := exists_below?_nest hm.package (moduleCode c)
    [moduleHead (moduleName c.className)] 0 before
  have hlegible := legible_moduleItems hn hm.className hc
  refine ⟨depth + 1, ?_⟩
  unfold modulePath
  rw [List.map_append, houtline]
  refine hnest.trans ?_
  have hfound := within?_module hm.module (spaced (preambleItems ++ stateItems c ++ eventItems c
    ++ errorItems ++ traitItems c ++ machineItems c)) front depth
  refine (congrArg (Option.bind · _) hfound).trans ?_
  rw [Option.bind_some, below?, outline_of_legible (legible_spaced hlegible), flatMap_trees_spaced]
  rfl

/-- The scopes of the generated source are those of the chart. -/
theorem scopes?_sourceLines (hc : c.WellFormed) (hn : UsableNames c) :
    scopes? (modulePath c options) (renderLines (sourceLines c options)) =
      some (chartScopes c) := by
  obtain ⟨depth, hbelow⟩ := exists_below?_modulePath hm hc hn
  have hlegible := legible_moduleItems hn hm.className hc
  have hwithin := fun head => within?_flatMap_trees
    (fun code hcode => (hlegible code hcode).headed) head depth
  obtain ⟨hhooks, hstates, hstate, hevents, hevent⟩ := lastBody?_moduleItems c
  unfold scopes? enumScope?
  rw [hbelow, Option.bind_some, hwithin, hwithin, hwithin, hwithin, hwithin, hhooks, hstates,
    hstate, hevents, hevent]
  simp only [Option.map_some, Option.bind_some]
  rw [variantsOf_lines hn.state, variantsOf_lines hn.event,
    declarations_spaced (legible_stateFunctions hn), declarations_stateFunctions,
    declarations_spaced (legible_eventFunctions hn), declarations_eventFunctions,
    outline_of_legible (legible_hookMethods hn hm.className),
    declarations_of_legible (legible_hookMethods hn hm.className), declarations_hookMethods hn,
    declarations_of_legible hlegible, declarations_moduleItems hm.className]
  rfl

end Text

end Statechart.Source
