import Statechart.Proofs.Source.Clashes
import Statechart.Proofs.Source.Wording
set_option autoImplicit false

/-!
# Source: the banner and what stands below it

The banner quotes the qualified name of the chart as it is, while all names below it have been
checked.  So a chart has a say in the text below the banner by its identifiers only, and the banner
is one line if the package has no line end in it.  Packages are checked when the module is nested in
them; else a package can end the banner early and go on with code of its own.
-/

namespace Statechart.Source

/-! ## The banner -/

/-- There is no line end in the text. -/
def OneLine (text : String) : Prop :=
  '\n' ∉ text.toList ∧ '\r' ∉ text.toList

instance (text : String) : Decidable (OneLine text) :=
  inferInstanceAs (Decidable (_ ∧ _))

theorem oneLine_append {front back : String} :
    OneLine (front ++ back) ↔ OneLine front ∧ OneLine back := by
  simp only [OneLine, String.toList_append, List.mem_append, not_or]
  tauto

theorem IsIdentifier.oneLine {name : String} (h : IsIdentifier name) : OneLine name :=
  ⟨h.not_mem (by decide), h.not_mem (by decide)⟩

/-- A package is the only thing that can break the banner. -/
theorem oneLine_headerLine_iff {c : Chart} (hclass : IsIdentifier c.className) :
    OneLine (headerLine c) ↔ ∀ package, c.package? = some package → OneLine package := by
  have hfront : OneLine "// @generated by scxml-fsm from `" := by decide
  have hback : OneLine "`. Do not edit." := by decide
  have hseparator : OneLine Chart.nameSeparator.toString := by decide
  unfold headerLine Chart.qualifiedName
  rw [oneLine_append, oneLine_append]
  cases c.package? with
  | none => simp [hfront, hback, hclass.oneLine]
  | some package =>
    have hname : OneLine (package ++ Chart.nameSeparator.toString ++ c.className) ↔
        OneLine package := by
      rw [oneLine_append, oneLine_append]
      exact ⟨fun h => h.1.1, fun h => ⟨⟨h, hseparator⟩, hclass.oneLine⟩⟩
    constructor
    · intro h package' hpackage
      rw [← Option.some.inj hpackage]
      exact hname.1 h.1.2
    · exact fun h => ⟨⟨hfront, hname.2 (h package rfl)⟩, hback⟩

/-- Segments hold everything but the separators. -/
theorem mem_segments {cs : List Char} {ch : Char} (h : ch ∈ cs) :
    ch = Chart.nameSeparator ∨ ∃ segment ∈ segments cs, ch ∈ segment := by
  fun_induction segments cs with
  | case1 => exact absurd h List.not_mem_nil
  | case2 cs ih =>
    rcases List.mem_cons.1 h with hch | h
    · exact .inl hch
    · obtain hch | ⟨segment, hsegment, hch⟩ := ih h
      · exact .inl hch
      · exact .inr ⟨segment, List.mem_cons_of_mem _ hsegment, hch⟩
  | case3 c cs hc hsegments ih =>
    rcases List.mem_cons.1 h with rfl | h
    · exact .inr ⟨_, List.mem_cons_self, List.mem_cons_self⟩
    · obtain hch | ⟨segment, hsegment, _⟩ := ih h
      · exact .inl hch
      · rw [hsegments] at hsegment
        exact absurd hsegment List.not_mem_nil
  | case4 c cs hc first rest hsegments ih =>
    rcases List.mem_cons.1 h with rfl | h
    · exact .inr ⟨_, List.mem_cons_self, List.mem_cons_self⟩
    · obtain hch | ⟨segment, hsegment, hch⟩ := ih h
      · exact .inl hch
      · rw [hsegments] at hsegment
        rcases List.mem_cons.1 hsegment with rfl | hsegment
        · exact .inr ⟨_, List.mem_cons_self, List.mem_cons_of_mem _ hch⟩
        · exact .inr ⟨segment, List.mem_cons_of_mem _ hsegment, hch⟩

/-- A package whose segments are identifiers has no line end in it. -/
theorem oneLine_of_segments {package : String}
    (h : ∀ segment ∈ (segments package.toList).map String.ofList, IsIdentifier segment) :
    OneLine package := by
  have hpart : ∀ ch ∈ package.toList, ch = Chart.nameSeparator ∨ isIdentifierPart ch = true := by
    intro ch hch
    refine (mem_segments hch).imp_right ?_
    rintro ⟨segment, hsegment, hmem⟩
    refine (h _ (List.mem_map_of_mem hsegment)).isIdentifierPart ch ?_
    rwa [String.toList_ofList]
  constructor
  · exact fun hmem => absurd (hpart _ hmem) (by decide)
  · exact fun hmem => absurd (hpart _ hmem) (by decide)

/-- Packages that the module is nested in have been checked. -/
theorem oneLine_of_nested {c : Chart} {options : SourceOptions} (hm : ModuleNames c options)
    (hnest : options.nestPackages = true) {package : String} (h : c.package? = some package) :
    OneLine package := by
  refine oneLine_of_segments fun segment hsegment => hm.package segment ?_
  unfold packages
  rw [h]
  simpa [hnest] using hsegment

/-! ## Below the banner -/

/-- The names that a chart supplies to its source. -/
def suppliedNames (c : Chart) (options : SourceOptions) : List String :=
  c.className :: (packages c options ++ c.stateIds ++ c.events ++ c.actions)

/-- The name is supplied by the chart and passes as an identifier. -/
def Supplied (c : Chart) (options : SourceOptions) (name : String) : Prop :=
  IsIdentifier name ∧ name ∈ suppliedNames c options

/-- The text is ASCII, and its lines are fixed but for the identifiers that the chart supplies. -/
structure Worded (c : Chart) (options : SourceOptions) (text : String) : Prop where
  ascii : Ascii text
  line : ∀ line ∈ Text.lines text.toList, ∃ indent words,
    line = List.replicate indent ' ' ++ words.toList ∧
      (words ∈ fixedLines ∨ NamedLine (Supplied c options) words)

theorem ascii_renderLines {lines : List CodeLine} (h : ∀ line ∈ lines, Ascii line.text) :
    Ascii (renderLines lines) := by
  induction lines with
  | nil => exact ascii_of_bytesOf (by decide)
  | cons line lines ih =>
    have hrest := ih fun next hnext => h next (List.mem_cons_of_mem _ hnext)
    obtain ⟨indent, hindent⟩ := line.toList_render
    intro ch hch
    rw [toList_renderLines_cons, hindent, List.mem_append, List.mem_append, List.mem_cons,
      List.mem_replicate] at hch
    rcases hch with (⟨_, rfl⟩ | hword) | rfl | hrest'
    · decide
    · exact h line List.mem_cons_self ch hword
    · decide
    · exact hrest ch hrest'

section Names

variable {c : Chart} {options : SourceOptions} (hn : UsableNames c) (hm : ModuleNames c options)
  (hc : c.WellFormed)

include hn hm hc

/-- The words of the module in its packages. -/
theorem mem_fixedLines_or_namedLine {words : String}
    (h : words ∈ (nest (packages c options) (moduleCode c)).texts) :
    words ∈ fixedLines ∨ NamedLine (Supplied c options) words := by
  have hnames : NamesIn (Supplied c options) c :=
    { className := ⟨hm.className, by simp [suppliedNames]⟩
      state := fun id hid => ⟨hn.state id hid, by simp [suppliedNames, hid]⟩
      event := fun event hevent => ⟨hn.event event hevent, by simp [suppliedNames, hevent]⟩
      action := fun action haction => ⟨hn.action action haction, by simp [suppliedNames, haction]⟩ }
  have hpackages : ∀ name ∈ packages c options, Supplied c options name := fun name hname =>
    ⟨hm.package name hname, by simp [suppliedNames, hname]⟩
  have hmodelled := modelledOn_nest hnames hc hpackages words (by simpa using h)
  have hblank : "" ∈ fixedLines := by decide +kernel
  rcases hmodelled with hfixed | hfixed | hnamed
  · rw [Code.textsAll_cons, Code.texts, List.singleton_append] at hfixed
    rcases List.mem_cons.1 hfixed with rfl | hbase
    · exact .inl hblank
    · exact .inl (List.mem_append_right _ hbase)
  · exact .inl (textsAll_subset (List.cons_subset_cons _ (List.nil_subset _)) hfixed)
  · exact .inr hnamed

/-- The text of the module in its packages is made of fixed words and checked names. -/
theorem worded_nest :
    Worded c options (renderLines ((nest (packages c options) (moduleCode c)).lines 0)) := by
  have hunbroken : ∀ line ∈ (nest (packages c options) (moduleCode c)).lines 0,
      '\n' ∉ line.text.toList := fun line hline =>
    (legible_nest hn hm hc).unbroken _ (Code.text_mem_texts hline)
  have hwords := fun line (hline : line ∈ (nest (packages c options) (moduleCode c)).lines 0) =>
    mem_fixedLines_or_namedLine hn hm hc (Code.text_mem_texts hline)
  constructor
  · refine ascii_renderLines fun line hline => ?_
    rcases hwords line hline with hfixed | hnamed
    · exact ascii_fixedLines _ hfixed
    · exact hnamed.ascii fun name hname => hname.1
  · intro chars hchars
    rw [lines_renderLines hunbroken] at hchars
    obtain ⟨line, hline, rfl⟩ := List.mem_map.1 hchars
    obtain ⟨indent, hindent⟩ := line.toList_render
    exact ⟨indent, line.text, hindent, hwords line hline⟩

end Names

/-- With a banner the source is the banner, an empty line and the source without the banner. -/
theorem renderLines_sourceLines {c : Chart} {options : SourceOptions} (h : options.header = true) :
    renderLines (sourceLines c options) =
      headerLine c ++ "\n\n" ++ renderLines (sourceLines c { options with header := false }) := by
  have hbanner : renderLines [.filled 0 (headerLine c), .blank] = headerLine c ++ "\n\n" := by
    apply String.toList_inj.1
    rw [toList_renderLines_cons, toList_renderLines_cons, String.toList_append]
    simp [CodeLine.render, renderLines]
  unfold sourceLines
  rw [if_pos h, renderLines_append, hbanner]
  rfl

/-- **What a chart can put into its source.**  Below the banner there are fixed words and the names
of the chart that have been checked, as they are or in snake case, and nothing else.  The banner is
one comment line for the charts whose package is one line, and so it is always if the module is
nested in its packages. -/
theorem wording_of_generate {c : Chart} (hd : c.IsDocument) {options : SourceOptions}
    {text : String} (h : generate c options = .ok text) :
    ∃ body, generate c { options with header := false } = .ok body ∧ Worded c options body ∧
      (options.header = false → text = body) ∧
      (options.header = true → ∃ banner, text = banner ++ "\n\n" ++ body ∧
        "// ".toList <+: banner.toList ∧
        (OneLine banner ↔ ∀ package, c.package? = some package → OneLine package) ∧
        (options.nestPackages = true → OneLine banner)) := by
  have hnames := checkNames_of_generate h
  have hm := moduleNames_of_checkNames hnames
  obtain ⟨hn, rfl⟩ := generate_eq_ok h
  have hbody : generate c { options with header := false } =
      .ok (renderLines (sourceLines c { options with header := false })) := by
    -- whether there is a banner makes no difference to the checks
    have hsame : checkNames c { options with header := false } = .ok () := hnames
    unfold generate
    rw [hsame]
  have hbanner := oneLine_headerLine_iff hm.className
  refine ⟨_, hbody, worded_nest hn hm hd.wellFormed, ?_, ?_⟩
  · intro hheader
    unfold sourceLines
    rw [hheader]
    rfl
  · intro hheader
    refine ⟨headerLine c, renderLines_sourceLines hheader, ?_, hbanner, ?_⟩
    · unfold headerLine
      simp only [String.toList_append]
      exact ⟨_, rfl⟩
    · intro hnest
      exact hbanner.2 fun package hpackage => oneLine_of_nested hm hnest hpackage

/-! ## Lamps in packages

The package of the second lamp ends the banner and starts another comment, and what stands between
them is code. -/

/-- The element tree of a lamp in a package. -/
def lampElementIn (package : String) : Markup.Element :=
  ⟨"scxml", [⟨"name", package ++ ".Lamp"⟩], [⟨"state", [⟨"id", "Off"⟩], []⟩]⟩

/-- The chart of a lamp in a package. -/
def lampIn (package : String) : Chart where
  className := "Lamp"
  package? := some package
  initial := "Off"
  base? := none
  debug := false
  states := [⟨"Off", []⟩]

/-- A lamp in two packages has its banner and its source. -/
theorem wording_of_generate_lamp :
    generate (lampIn "home.hall") {} = .ok (renderLines (sourceLines (lampIn "home.hall") {})) ∧
      ∃ banner body,
        renderLines (sourceLines (lampIn "home.hall") {}) = banner ++ "\n\n" ++ body ∧
        OneLine banner ∧ Worded (lampIn "home.hall") {} body := by
  have hread : Chart.ofElement (lampElementIn "home.hall") = .ok (lampIn "home.hall") := rfl
  have hgenerate : generate (lampIn "home.hall") {} =
      .ok (renderLines (sourceLines (lampIn "home.hall") {})) := rfl
  obtain ⟨body, _, hworded, _, hbanner⟩ := wording_of_generate (.read hread) hgenerate
  obtain ⟨banner, htext, _, _, hnested⟩ := hbanner rfl
  exact ⟨hgenerate, banner, body, htext, hnested rfl, hworded⟩

/-- A package that is no name. -/
def intrudingPackage : String :=
  "home\nfn intruder() \x7b\x7d\n//"

/-- **A package can put code into the source** if the module is not nested in it. -/
theorem intruder_mem_lines :
    Chart.ofElement (lampElementIn intrudingPackage) = .ok (lampIn intrudingPackage) ∧
      ∃ text, generate (lampIn intrudingPackage) { nestPackages := false } = .ok text ∧
        "fn intruder() \x7b\x7d".toList ∈ Text.lines text.toList := by
  refine ⟨rfl, _, rfl, ?_⟩
  rw [renderLines_sourceLines rfl, String.append_assoc, String.toList_append]
  have hbanner : (headerLine (lampIn intrudingPackage)).toList =
      "// @generated by scxml-fsm from `home".toList ++ '\n' ::
        ("fn intruder() \x7b\x7d".toList ++ '\n' :: "//.Lamp`. Do not edit.".toList) := by
    decide +kernel
  rw [hbanner, List.append_assoc, List.cons_append, List.append_assoc, List.cons_append,
    Text.lines_append_of_not_mem (by decide), Text.lines_append_of_not_mem (by decide)]
  exact List.mem_cons_of_mem _ List.mem_cons_self

end Statechart.Source
