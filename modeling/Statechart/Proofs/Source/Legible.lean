import Statechart.Proofs.Source.Arms
import Statechart.Proofs.Source.Outline
set_option autoImplicit false

/-!
# Source: legible code

Which code is read as it was written: no line has a line end inside it, and the first line of each
piece starts with something other than a blank (`Code.Legible`).  Fixed words are checked; a name
that stands in a line does no harm, since an identifier has no such characters.  So the module of a
chart whose names pass is legible in all its items (`legible_moduleItems`), and so are the packages
around it (`legible_nest`).
-/

namespace Statechart.Source

/-! ## Code that is read as it was written -/

/-- Code without a line end inside a line, and with a first line that is read as it was written. -/
structure Code.Legible (code : Code) : Prop where
  unbroken : ∀ text ∈ code.texts, '\n' ∉ text.toList
  headed : code.Headed

/-- Whether no line of code holds the byte of a line end, and its first line starts with a byte
other than that of a blank. -/
def Code.looksLegible (code : Code) : Bool :=
  code.texts.all (fun text => (bytesOf text).all (· ≠ 10)) &&
    match code with
    | .line text => (bytesOf text).head?.any (· ≠ 32)
    | .blank => true
    | .block head _ tail => (bytesOf (head ++ " \x7b")).head?.any (· ≠ 32) && tail = ""

theorem Code.legible_of_looksLegible {code : Code} (h : code.looksLegible = true) :
    code.Legible := by
  obtain ⟨htexts, hhead⟩ := Bool.and_eq_true_iff.1 h
  have hunbroken : ∀ text ∈ code.texts, '\n' ∉ text.toList := fun text htext =>
    not_mem_of_bytesOf (List.all_eq_true.1 htexts text htext)
  refine ⟨hunbroken, ?_⟩
  cases code with
  | line text =>
    obtain ⟨hne, hblank⟩ := head?_of_bytesOf hhead
    exact ⟨⟨hunbroken text List.mem_cons_self, hblank⟩, hne⟩
  | blank => exact trivial
  | block head body tail =>
    obtain ⟨hbytes, htail⟩ := Bool.and_eq_true_iff.1 hhead
    exact ⟨⟨hunbroken _ List.mem_cons_self, (head?_of_bytesOf hbytes).2⟩, of_decide_eq_true htail⟩

theorem legible_of_all {codes : List Code} (h : codes.all Code.looksLegible = true) :
    ∀ code ∈ codes, code.Legible := fun code hcode =>
  Code.legible_of_looksLegible (List.all_eq_true.1 h code hcode)

theorem not_mem_append {front back : String} (hfront : '\n' ∉ front.toList)
    (hback : '\n' ∉ back.toList) : '\n' ∉ (front ++ back).toList := by
  rw [String.toList_append, List.mem_append]
  exact not_or.2 ⟨hfront, hback⟩

/-- What stands in texts with separators between them stands in a text or in the separator. -/
theorem mem_intercalate {separator : String} {texts : List String} {c : Char}
    (h : c ∈ (String.intercalate separator texts).toList) :
    c ∈ separator.toList ∨ ∃ text ∈ texts, c ∈ text.toList := by
  induction texts with
  | nil => simp at h
  | cons text texts ih =>
    cases texts with
    | nil =>
      rw [String.intercalate_singleton] at h
      exact .inr ⟨text, List.mem_cons_self, h⟩
    | cons next texts =>
      rw [String.intercalate_cons_cons, String.toList_append, String.toList_append,
        List.mem_append, List.mem_append] at h
      rcases h with (htext | hseparator) | hrest
      · exact .inr ⟨text, List.mem_cons_self, htext⟩
      · exact .inl hseparator
      · refine (ih hrest).imp_right ?_
        rintro ⟨other, hother, hc⟩
        exact ⟨other, List.mem_cons_of_mem _ hother, hc⟩

theorem not_mem_intercalate {separator : String} {texts : List String}
    (hseparator : '\n' ∉ separator.toList) (h : ∀ text ∈ texts, '\n' ∉ text.toList) :
    '\n' ∉ (String.intercalate separator texts).toList := by
  intro hmem
  obtain hmem | ⟨text, htext, hmem⟩ := mem_intercalate hmem
  · exact hseparator hmem
  · exact h text htext hmem

theorem isDigit_of_mem_toString {n : Nat} {c : Char} (h : c ∈ (toString n).toList) :
    c.isDigit = true := by
  rw [Nat.toString_eq_ofList_toDigits, String.toList_ofList] at h
  exact Nat.isDigit_of_mem_toDigits (by decide) (by decide) h

theorem not_mem_toString (n : Nat) : '\n' ∉ (toString n).toList := fun hmem =>
  absurd (isDigit_of_mem_toString hmem) (by decide)

theorem IsIdentifier.not_mem_newline {name : String} (h : IsIdentifier name) :
    '\n' ∉ name.toList :=
  h.not_mem (by decide)

theorem IsIdentifier.plain {name : String} (h : IsIdentifier name) : Plain name := by
  refine ⟨h.not_mem_newline, ?_⟩
  intro hhead
  exact h.not_mem (by decide) (List.mem_of_mem_head? hhead)

/-- Words are plain if they start with plain words and nothing after these ends the line. -/
theorem plain_append {front back : String} (hfront : Plain front) (hne : front ≠ "")
    (hback : '\n' ∉ back.toList) : Plain (front ++ back) := by
  refine ⟨not_mem_append hfront.not_mem hback, ?_⟩
  have hcs : front.toList ≠ [] := fun hnil => hne (String.toList_inj.1 hnil)
  obtain ⟨c, cs, hcons⟩ := List.exists_cons_of_ne_nil hcs
  have hhead := hfront.head_ne
  rw [hcons] at hhead
  rw [String.toList_append, hcons]
  exact hhead

/-- A name can stand in the middle of a line that starts with fixed words. -/
theorem IsIdentifier.plain_between {name front back : String} (h : IsIdentifier name)
    (hfront : looksPlain front = true) (hback : '\n' ∉ back.toList) :
    Plain (front ++ name ++ back) := by
  rw [String.append_assoc]
  exact plain_append (plain_of_looksPlain hfront) (ne_empty_of_looksPlain hfront)
    (not_mem_append h.not_mem_newline hback)

theorem Code.legible_line {front back : String} (hfront : Plain front) (hne : front ≠ "")
    (hback : '\n' ∉ back.toList) : (Code.line (front ++ back)).Legible := by
  have hplain := plain_append hfront hne hback
  refine ⟨?_, hplain, ?_⟩
  · intro text htext
    rw [Code.texts, List.mem_singleton] at htext
    exact htext ▸ hplain.not_mem
  · simp [hne]

theorem Code.legible_line_of_looksPlain {front back : String} (hfront : looksPlain front = true)
    (hback : '\n' ∉ back.toList) : (Code.line (front ++ back)).Legible :=
  Code.legible_line (plain_of_looksPlain hfront) (ne_empty_of_looksPlain hfront) hback

theorem Code.legible_block {head : String} {body : List Code} (hhead : Plain (head ++ " \x7b"))
    (hbody : ∀ code ∈ body, code.Legible) : (Code.block head body).Legible := by
  refine ⟨?_, hhead, rfl⟩
  intro text htext
  rw [Code.texts, List.mem_cons, List.mem_append, List.mem_singleton] at htext
  rcases htext with rfl | htext | rfl
  · exact hhead.not_mem
  · rw [Code.textsAll_eq_flatMap] at htext
    obtain ⟨code, hcode, htext⟩ := List.mem_flatMap.1 htext
    exact (hbody code hcode).unbroken text htext
  · decide

/-- Between groups of code there are only empty lines. -/
theorem mem_spaced {groups : List (List Code)} {code : Code} (h : code ∈ spaced groups) :
    code = .blank ∨ code ∈ groups.flatten := by
  unfold spaced at h
  induction groups with
  | nil => exact absurd h List.not_mem_nil
  | cons group groups ih =>
    cases groups with
    | nil =>
      rw [List.intercalate_singleton] at h
      exact Or.inr (List.mem_append_left _ h)
    | cons next groups =>
      rw [List.intercalate_cons_cons, List.append_assoc, List.mem_append, List.mem_append,
        List.mem_singleton] at h
      rcases h with h | h | h
      · exact Or.inr (List.mem_append_left _ h)
      · exact Or.inl h
      · exact (ih h).imp_right (List.mem_append_right _)

/-- Empty lines have no part in an outline. -/
theorem flatMap_trees_spaced (groups : List (List Code)) (depth : Nat) :
    (spaced groups).flatMap (Code.trees depth) = groups.flatten.flatMap (Code.trees depth) := by
  unfold spaced
  induction groups with
  | nil => rfl
  | cons group groups ih =>
    cases groups with
    | nil => rw [List.intercalate_singleton, List.flatten_singleton]
    | cons next groups =>
      rw [List.intercalate_cons_cons, List.flatMap_append, ih, List.flatMap_append,
        List.flatMap_singleton, Code.trees_blank, List.append_nil, ← List.flatMap_append]
      rfl

theorem Code.legible_blank : Code.blank.Legible :=
  Code.legible_of_looksLegible rfl

theorem legible_spaced {groups : List (List Code)} (h : ∀ code ∈ groups.flatten, code.Legible) :
    ∀ code ∈ spaced groups, code.Legible := by
  intro code hcode
  rcases mem_spaced hcode with rfl | hcode
  · exact Code.legible_blank
  · exact h code hcode

/-- The outline of legible code. -/
theorem outline_of_legible {codes : List Code} (h : ∀ code ∈ codes, code.Legible) (depth : Nat) :
    outline (Code.readBack depth codes) = codes.flatMap (Code.trees depth) :=
  outline_readBack (fun code hcode => (h code hcode).headed) depth

/-! ## The items of a module -/

/-- The items of the module of a chart, one after the other. -/
def moduleItems (c : Chart) : List Code :=
  (preambleItems ++ stateItems c ++ eventItems c ++ errorItems ++ traitItems c
    ++ machineItems c).flatten

/-- The first line of a module. -/
def moduleHead (name : String) : String :=
  "pub mod " ++ name ++ " \x7b"

/-- What is associated with the enumeration of states, in groups. -/
def stateFunctions (c : Chart) : List (List Code) :=
  [[allVariants "State" c.stateIds], [nameFunction "State" c.stateIds], terminalFunction c]

/-- What is associated with the enumeration of events, in groups. -/
def eventFunctions (c : Chart) : List (List Code) :=
  [[allVariants "Event" c.events], [nameFunction "Event" c.events]]

/-- The functions of the machine, in groups. -/
def machineFunctions (c : Chart) : List (List Code) :=
  accessFunctions c
    ++ [[startFunction], [pushFunction c], [baseFunction c], [enterFunction c.debug],
      [afterHookFunction]]
    ++ (if c.debug then logFunctions else [])

/-- The methods of the trait of hooks. -/
def hookMethods (c : Chart) : List Code :=
  .line ("fn on_state_change(&self, fsm: &" ++ c.className
      ++ "<Self>, state: State) -> Result<(), StateError>;")
    :: c.actions.map (hookSignature c.className)

theorem plain_moduleHead {name : String} (h : IsIdentifier name) : Plain (moduleHead name) :=
  h.plain_between rfl (by decide)

/-- The variants of an enumeration, one on each line. -/
def variantLines (variants : List String) : List Code :=
  variants.map fun v => .line (v ++ ",")

theorem legible_variantLines {variants : List String} (h : ∀ v ∈ variants, IsIdentifier v) :
    ∀ code ∈ variantLines variants, code.Legible := by
  intro code hcode
  obtain ⟨v, hv, rfl⟩ := List.mem_map.1 hcode
  exact Code.legible_line (h v hv).plain (h v hv).ne_empty (by decide)

section Items

variable {variants : List String} (hvariants : ∀ v ∈ variants, IsIdentifier v) {name : String}
  (hname : IsIdentifier name)

include hvariants hname

theorem legible_allVariants : (allVariants name variants).Legible := by
  have hpaths : ∀ path ∈ variants.map (variantPath name), '\n' ∉ path.toList := by
    intro path hpath
    obtain ⟨v, hv, rfl⟩ := List.mem_map.1 hpath
    exact not_mem_append (not_mem_append hname.not_mem_newline (by decide))
      (hvariants v hv).not_mem_newline
  unfold allVariants
  simp only [String.append_assoc]
  refine Code.legible_line_of_looksPlain rfl ?_
  exact not_mem_append hname.not_mem_newline (not_mem_append (by decide)
    (not_mem_append (not_mem_toString _) (not_mem_append (by decide)
      (not_mem_append (not_mem_intercalate (by decide) hpaths) (by decide)))))

theorem legible_nameArms : ∀ code ∈ variants.map fun v =>
    Code.line (variantPath name v ++ " => \"" ++ v ++ "\","), code.Legible := by
  intro code hcode
  obtain ⟨v, hv, rfl⟩ := List.mem_map.1 hcode
  simp only [variantPath, String.append_assoc]
  have hv' := (hvariants v hv).not_mem_newline
  exact Code.legible_line hname.plain hname.ne_empty (not_mem_append (by decide)
    (not_mem_append hv' (not_mem_append (by decide) (not_mem_append hv' (by decide)))))

/-- The match of the function that gives the names. -/
theorem legible_nameMatch : ∀ code ∈ [Code.block "match self" (variants.map fun v =>
    .line (variantPath name v ++ " => \"" ++ v ++ "\","))], code.Legible := by
  intro code hcode
  rw [List.mem_singleton.1 hcode]
  exact Code.legible_block (by decide) (legible_nameArms hvariants hname)

theorem legible_nameFunction : (nameFunction name variants).Legible :=
  Code.legible_block (by decide) (legible_nameMatch hvariants hname)

theorem legible_enumDeclaration {comment : String} (hcomment : Plain comment)
    (hne : comment ≠ "") : ∀ code ∈ enumDeclaration comment name variants, code.Legible := by
  have hhead : Plain ("pub enum " ++ name ++ " \x7b") :=
    hname.plain_between rfl (by decide)
  intro code hcode
  simp only [enumDeclaration, List.mem_cons, List.not_mem_nil, or_false] at hcode
  rcases hcode with rfl | rfl | rfl
  · have hline : (Code.line (comment ++ "")).Legible :=
      Code.legible_line hcomment hne (by decide)
    rwa [String.append_empty] at hline
  · exact Code.legible_of_looksLegible rfl
  · exact Code.legible_block hhead (legible_variantLines hvariants)

end Items

section Chart

variable {c : Chart} (hn : UsableNames c) (hclass : IsIdentifier c.className)

/-- The terminal states of a chart are among its states. -/
theorem UsableNames.terminal (hn : UsableNames c) :
    ∀ s ∈ c.terminalStates, IsIdentifier s.id := fun _ hs =>
  hn.state _ (List.mem_map_of_mem (List.mem_filter.1 hs).1)

/-- The line that tells the terminal states. -/
def terminalLine (c : Chart) : String :=
  let terminal := c.terminalStates.map fun s => variantPath "State" s.id
  if terminal.isEmpty then "false"
  else "matches!(self, " ++ String.intercalate " | " terminal ++ ")"

include hn

theorem legible_terminalLine : ∀ code ∈ [Code.line (terminalLine c)], code.Legible := by
  have hpaths : ∀ path ∈ c.terminalStates.map fun s => variantPath "State" s.id,
      '\n' ∉ path.toList := by
    intro path hpath
    obtain ⟨s, hs, rfl⟩ := List.mem_map.1 hpath
    exact not_mem_append (by decide) (hn.terminal s hs).not_mem_newline
  intro code hcode
  rw [List.mem_singleton.1 hcode, terminalLine]
  split
  · exact Code.legible_of_looksLegible rfl
  · rw [String.append_assoc]
    exact Code.legible_line_of_looksPlain rfl
      (not_mem_append (not_mem_intercalate (by decide) hpaths) (by decide))

theorem legible_terminalFunction : ∀ code ∈ terminalFunction c, code.Legible := by
  intro code hcode
  simp only [terminalFunction, List.mem_cons, List.not_mem_nil, or_false] at hcode
  rcases hcode with rfl | rfl
  · exact Code.legible_of_looksLegible rfl
  · exact Code.legible_block (by decide) (legible_terminalLine hn)

theorem legible_stateFunctions : ∀ code ∈ (stateFunctions c).flatten, code.Legible := by
  have hname : IsIdentifier "State" := by decide
  intro code hcode
  simp only [stateFunctions, List.flatten_cons, List.flatten_nil, List.append_nil, List.mem_append,
    List.mem_singleton] at hcode
  rcases hcode with rfl | rfl | hcode
  · exact legible_allVariants hn.state hname
  · exact legible_nameFunction hn.state hname
  · exact legible_terminalFunction hn code hcode

theorem legible_eventFunctions : ∀ code ∈ (eventFunctions c).flatten, code.Legible := by
  have hname : IsIdentifier "Event" := by decide
  intro code hcode
  simp only [eventFunctions, List.flatten_cons, List.flatten_nil, List.append_nil, List.mem_append,
    List.mem_singleton] at hcode
  rcases hcode with rfl | rfl
  · exact legible_allVariants hn.event hname
  · exact legible_nameFunction hn.event hname

theorem legible_machineFunctions (hc : c.WellFormed) :
    ∀ code ∈ (machineFunctions c).flatten, code.Legible := by
  obtain ⟨rest, haccess, hrest⟩ : ∃ rest : List (List Code), accessFunctions c =
      [.line ("pub const INITIAL_STATE: State = State::" ++ c.initial ++ ";")] :: rest ∧
        ∀ code ∈ rest.flatten, code.Legible :=
    ⟨[[_], [_], [_], [_], [_], [_]], rfl, legible_of_all rfl⟩
  have hplain := plain_dispatchCode hc hn
  have henter : ∀ debug, (enterFunction debug).Legible := fun debug =>
    Code.legible_of_looksLegible (by cases debug <;> rfl)
  have hlog : ∀ debug : Bool, ∀ code ∈ (if debug then logFunctions else []).flatten,
      code.Legible := fun debug => legible_of_all (by cases debug <;> rfl)
  intro code hcode
  rw [machineFunctions, haccess] at hcode
  simp only [List.flatten_append, List.flatten_cons, List.flatten_nil, List.append_nil,
    List.mem_append, List.mem_singleton] at hcode
  rcases hcode with ((rfl | hcode) | rfl | rfl | rfl | rfl | rfl) | hcode
  · rw [String.append_assoc]
    exact Code.legible_line_of_looksPlain rfl
      (not_mem_append (hn.state _ hc.initial_mem).not_mem_newline (by decide))
  · exact hrest code hcode
  · exact Code.legible_of_looksLegible rfl
  · refine ⟨fun text htext => (hplain text ?_).not_mem,
      plain_of_mem_dispatchHeads _ List.mem_cons_self, rfl⟩
    rw [dispatchCode, Code.textsAll_cons]
    exact List.mem_append_left _ htext
  · refine ⟨fun text htext => (hplain text ?_).not_mem,
      plain_of_mem_dispatchHeads _ (List.mem_cons_of_mem _ List.mem_cons_self), rfl⟩
    rw [dispatchCode, Code.textsAll_cons, Code.textsAll_cons, Code.textsAll_cons]
    exact List.mem_append_right _ (List.mem_append_right _ (List.mem_append_left _ htext))
  · exact henter c.debug
  · exact Code.legible_of_looksLegible rfl
  · exact hlog c.debug code hcode

include hclass

theorem legible_stateItems : ∀ code ∈ (stateItems c).flatten, code.Legible := by
  have hcomment : Plain ("/// States of `" ++ c.className ++ "`, in declaration order") :=
    hclass.plain_between rfl (not_mem_of_bytesOf rfl)
  intro code hcode
  simp only [stateItems, List.flatten_cons, List.flatten_nil, List.append_nil, List.mem_append,
    List.mem_singleton] at hcode
  rcases hcode with hcode | rfl | rfl
  · exact legible_enumDeclaration hn.state (by decide) hcomment (by simp) code hcode
  · exact Code.legible_block (by decide) (legible_spaced (legible_stateFunctions hn))
  · exact Code.legible_of_looksLegible rfl

theorem legible_eventItems : ∀ code ∈ (eventItems c).flatten, code.Legible := by
  have hcomment : Plain ("/// Events accepted by `" ++ c.className ++ "`") :=
    hclass.plain_between rfl (by decide)
  intro code hcode
  simp only [eventItems, List.flatten_cons, List.flatten_nil, List.append_nil, List.mem_append,
    List.mem_singleton] at hcode
  rcases hcode with hcode | rfl | rfl | rfl
  · exact legible_enumDeclaration hn.event (by decide) hcomment (by simp) code hcode
  · exact Code.legible_block (by decide) (legible_spaced (legible_eventFunctions hn))
  · exact Code.legible_of_looksLegible rfl
  · exact Code.legible_of_looksLegible rfl

theorem legible_hookMethods : ∀ code ∈ hookMethods c, code.Legible := by
  have hnewline := hclass.not_mem_newline
  intro code hcode
  rcases List.mem_cons.1 hcode with rfl | hcode
  · rw [String.append_assoc]
    exact Code.legible_line_of_looksPlain rfl
      (not_mem_append hnewline (not_mem_of_bytesOf rfl))
  · obtain ⟨action, haction, rfl⟩ := List.mem_map.1 hcode
    have hhook : '\n' ∉ (hookName action).toList := by
      intro hmem
      have hpart := isIdentifierPart_of_mem_hookName (hn.action action haction) _ hmem
      exact absurd hpart (by decide)
    simp only [hookSignature, String.append_assoc]
    exact Code.legible_line_of_looksPlain rfl (not_mem_append hhook
      (not_mem_append (by decide) (not_mem_append hnewline (not_mem_of_bytesOf rfl))))

theorem legible_traitItems : ∀ code ∈ (traitItems c).flatten, code.Legible := by
  obtain ⟨first, rest, hitems, hfirst, hrest⟩ : ∃ first rest : List (List Code),
      traitItems c = first ++ hooksTrait c :: rest ∧ (∀ code ∈ first.flatten, code.Legible) ∧
        ∀ code ∈ rest.flatten, code.Legible :=
    ⟨[[_, _]], [[_, _], [_], [_]], rfl, legible_of_all rfl,
      legible_of_all rfl⟩
  intro code hcode
  rw [hitems, List.flatten_append, List.flatten_cons, List.mem_append, List.mem_append] at hcode
  rcases hcode with hcode | hcode | hcode
  · exact hfirst code hcode
  · simp only [hooksTrait, List.mem_cons, List.not_mem_nil, or_false] at hcode
    rcases hcode with rfl | rfl
    · rw [String.append_assoc]
      exact Code.legible_line_of_looksPlain rfl
        (not_mem_append hclass.not_mem_newline (not_mem_of_bytesOf rfl))
    · exact Code.legible_block (by decide) (legible_hookMethods hn hclass)
  · exact hrest code hcode

theorem legible_machineItems (hc : c.WellFormed) :
    ∀ code ∈ (machineItems c).flatten, code.Legible := by
  intro code hcode
  simp only [machineItems, List.flatten_cons, List.flatten_nil, List.append_nil, List.mem_append,
    List.mem_singleton] at hcode
  rcases hcode with rfl | rfl
  · refine Code.legible_block ?_ (legible_of_all rfl)
    rw [String.append_assoc]
    exact hclass.plain_between rfl (not_mem_of_bytesOf rfl)
  · refine Code.legible_block ?_ (legible_spaced (legible_machineFunctions hn hc))
    rw [String.append_assoc]
    exact hclass.plain_between rfl (not_mem_of_bytesOf rfl)

theorem legible_moduleItems (hc : c.WellFormed) : ∀ code ∈ moduleItems c, code.Legible := by
  intro code hcode
  simp only [moduleItems, List.flatten_append, List.mem_append] at hcode
  rcases hcode with ((((hcode | hcode) | hcode) | hcode) | hcode) | hcode
  · exact legible_of_all rfl code hcode
  · exact legible_stateItems hn hclass code hcode
  · exact legible_eventItems hn hclass code hcode
  · exact legible_of_all rfl code hcode
  · exact legible_traitItems hn hclass code hcode
  · exact legible_machineItems hn hclass hc code hcode

omit hclass in
/-- The module in its packages is read as it was written. -/
theorem legible_nest {options : SourceOptions} (hm : ModuleNames c options) (hc : c.WellFormed) :
    (nest (packages c options) (moduleCode c)).Legible := by
  have hmodule : (moduleCode c).Legible := Code.legible_block (plain_moduleHead hm.module)
    (legible_spaced (legible_moduleItems hn hm.className hc))
  have hpackages := hm.package
  generalize packages c options = names at hpackages ⊢
  induction names with
  | nil => exact hmodule
  | cons name names ih =>
    refine Code.legible_block (plain_moduleHead (hpackages name List.mem_cons_self)) ?_
    intro code hcode
    rw [List.mem_singleton.1 hcode]
    exact ih fun next hnext => hpackages next (List.mem_cons_of_mem _ hnext)

end Chart

end Statechart.Source
