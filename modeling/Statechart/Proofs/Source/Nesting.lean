import Statechart.Proofs.Source.Banner
import Statechart.Proofs.Source.Faults
set_option autoImplicit false

/-!
# Source: modules in packages

To put a module into packages is to wrap it: a first line for each package, the text of the module
moved in, and a closing brace for each package (`wrapText`).  On code this is what depth means:
code that starts deeper has the same lines, each deeper by the same amount (`Code.lines_add`).  On
text it takes that lines are divided as they were written, and that the only empty lines are those
that are meant to be empty: in a block, all others are indented (`eq_blank_or_render_ne_empty`).
-/

namespace Statechart.Source

/-! ## Texts -/

/-- A line moved in by a number of columns.  An empty line stays empty. -/
def indentLine (columns : Nat) (line : List Char) : List Char :=
  if line = [] then [] else List.replicate columns ' ' ++ line

/-- A text with all its lines moved in. -/
def indentText (columns : Nat) (text : String) : String :=
  String.ofList ((Text.lines text.toList).flatMap fun line => indentLine columns line ++ ['\n'])

/-- A line at a depth, with its end. -/
def lineAt (depth : Nat) (words : String) : String :=
  String.ofList (List.replicate (4 * depth) ' ') ++ words ++ "\n"

/-- The text of a module inside packages, outermost first. -/
def wrapText (names : List String) (text : String) : String :=
  String.join (names.zipIdx.map fun name => lineAt name.2 ("pub mod " ++ name.1 ++ " \x7b"))
    ++ indentText (4 * names.length) text
    ++ String.join ((List.range names.length).reverse.map fun depth => lineAt depth "\x7d")

/-- The packages of a chart, outermost first: the parts of the package name between its dots. -/
def packagePath (c : Chart) : List String :=
  c.package?.toList.flatMap fun package => (package.toList.splitOn '.').map String.ofList

/-- The banner and the empty line below it, where there is a banner. -/
def bannerText (c : Chart) (header : Bool) : String :=
  if header then headerLine c ++ "\n\n" else ""

/-! ## Depth -/

/-- A line that is nested further. -/
def CodeLine.deeper (k : Nat) : CodeLine → CodeLine
  | .blank => .blank
  | .filled depth text => .filled (depth + k) text

mutual

/-- Code that starts deeper has the same lines, all deeper by as much. -/
theorem Code.lines_add (depth k : Nat) : ∀ code : Code,
    code.lines (depth + k) = (code.lines depth).map (CodeLine.deeper k)
  | .line text => by
    rw [Code.lines, Code.lines]
    rfl
  | .blank => by
    rw [Code.lines, Code.lines]
    rfl
  | .block head body tail => by
    rw [Code.lines, Code.lines, Nat.add_right_comm, Code.linesAll_add (depth + 1) k body,
      List.map_cons, List.map_append]
    rfl

theorem Code.linesAll_add (depth k : Nat) : ∀ codes : List Code,
    Code.linesAll (depth + k) codes = (Code.linesAll depth codes).map (CodeLine.deeper k)
  | [] => by
    rw [Code.linesAll, Code.linesAll]
    rfl
  | code :: rest => by
    rw [Code.linesAll, Code.linesAll, Code.lines_add depth k code, Code.linesAll_add depth k rest,
      List.map_append]

end

/-- The lines of code in packages: their first lines, the lines of the code deeper by the number of
packages, and their last lines. -/
theorem lines_nest (names : List String) (code : Code) (depth : Nat) :
    (nest names code).lines depth =
      (names.zipIdx depth).map (fun name => .filled name.2 ("pub mod " ++ name.1 ++ " \x7b"))
        ++ code.lines (depth + names.length)
        ++ (List.range' depth names.length).reverse.map fun depth => .filled depth "\x7d" := by
  induction names generalizing depth with
  | nil => simp [nest]
  | cons name names ih =>
    have hnest : nest (name :: names) code = .block ("pub mod " ++ name) [nest names code] := rfl
    rw [hnest, Code.lines, Code.linesAll_cons, Code.linesAll_nil, List.append_nil, ih (depth + 1),
      List.zipIdx_cons, List.length_cons, List.range'_succ, List.reverse_cons]
    simp [Nat.add_assoc, Nat.add_comm 1]

/-! ## Lines that are moved in -/

/-- In a block only the lines that are meant to be empty are: others have words or are indented. -/
theorem eq_blank_or_render_ne_empty {head tail : String} {body : List Code} {depth : Nat}
    {line : CodeLine} (h : line ∈ (Code.block head body tail).lines depth) :
    line = .blank ∨ line.render.toList ≠ [] := by
  rw [Code.lines, List.mem_cons, List.mem_append, List.mem_singleton] at h
  rcases h with rfl | hbody | rfl
  · exact .inr (by simp [CodeLine.render])
  · refine (Code.depth_le_of_mem_linesAll (depth + 1) body line hbody).imp_right ?_
    rintro ⟨d, text, rfl, hd⟩
    have hindent : 4 * d ≠ 0 := by omega
    simp [CodeLine.render, hindent]
  · exact .inr (by simp [CodeLine.render])

theorem render_deeper {line : CodeLine} (h : line = .blank ∨ line.render.toList ≠ []) (k : Nat) :
    (line.deeper k).render.toList = indentLine (4 * k) line.render.toList := by
  cases line with
  | blank => rfl
  | filled depth text =>
    have hne : (CodeLine.filled depth text).render.toList ≠ [] :=
      h.resolve_left CodeLine.noConfusion
    rw [indentLine, if_neg hne]
    simp only [CodeLine.deeper, CodeLine.render, String.toList_append, String.toList_ofList]
    rw [← List.append_assoc, List.replicate_append_replicate, Nat.mul_add, Nat.add_comm]

/-- The text of lines that are nested further is the text of the lines, moved in. -/
theorem renderLines_deeper {lines : List CodeLine} (hend : ∀ line ∈ lines, '\n' ∉ line.text.toList)
    (h : ∀ line ∈ lines, line = .blank ∨ line.render.toList ≠ []) (k : Nat) :
    renderLines (lines.map (CodeLine.deeper k)) = indentText (4 * k) (renderLines lines) := by
  apply String.toList_inj.1
  rw [indentText, lines_renderLines hend, String.toList_ofList, List.flatMap_map]
  clear hend
  induction lines with
  | nil => rfl
  | cons line lines ih =>
    rw [List.map_cons, toList_renderLines_cons, render_deeper (h line List.mem_cons_self),
      ih fun next hnext => h next (List.mem_cons_of_mem _ hnext), List.flatMap_cons,
      List.append_assoc, List.singleton_append]

theorem renderLines_map_filled {α : Type} (depth : α → Nat) (words : α → String) (xs : List α) :
    renderLines (xs.map fun x => .filled (depth x) (words x)) =
      String.join (xs.map fun x => lineAt (depth x) (words x)) := by
  rw [renderLines, List.map_map]
  rfl

/-- The text of a block in packages is the text of the block, wrapped. -/
theorem renderLines_nest (names : List String) {head : String} {body : List Code}
    (hend : ∀ text ∈ (Code.block head body).texts, '\n' ∉ text.toList) :
    renderLines ((nest names (.block head body)).lines 0) =
      wrapText names (renderLines ((Code.block head body).lines 0)) := by
  have hmoved := renderLines_deeper
    (fun line (hline : line ∈ (Code.block head body).lines 0) =>
      hend _ (Code.text_mem_texts hline))
    (fun line hline => eq_blank_or_render_ne_empty hline) names.length
  rw [lines_nest, Code.lines_add, renderLines_append, renderLines_append, hmoved,
    renderLines_map_filled, renderLines_map_filled, ← List.range_eq_range']
  rfl

/-! ## Packages and the rest of the source -/

theorem packages_nested (c : Chart) (header : Bool) :
    packages c { nestPackages := true, header } = packagePath c :=
  packages_eq c _

theorem packages_flat (c : Chart) (header : Bool) :
    packages c { nestPackages := false, header } = [] :=
  packages_eq c _

/-- The source is the banner and the module in its packages. -/
theorem renderLines_sourceLines_eq (c : Chart) (options : SourceOptions) :
    renderLines (sourceLines c options) = bannerText c options.header ++
      renderLines ((nest (packages c options) (moduleCode c)).lines 0) := by
  cases hheader : options.header with
  | false =>
    rw [sourceLines, hheader]
    exact String.empty_append.symm
  | true => exact renderLines_sourceLines hheader

/-- Names that can be used with packages can be used without. -/
theorem NamesUsable.flat {c : Chart} {options : SourceOptions} (h : NamesUsable c options)
    (header : Bool) : NamesUsable c { nestPackages := false, header } :=
  { h with package := fun hnest => absurd hnest Bool.false_ne_true }

theorem namesUsable_of_generate {c : Chart} {options : SourceOptions} {text : String}
    (h : generate c options = .ok text) : NamesUsable c options := by
  rw [← nameFaults_eq_nil_iff]
  rw [generate_eq] at h
  cases hfaults : nameFaults c options with
  | nil => rfl
  | cons fault faults =>
    rw [hfaults] at h
    cases h

theorem generate_of_namesUsable {c : Chart} {options : SourceOptions} (h : NamesUsable c options) :
    generate c options = .ok (renderLines (sourceLines c options)) := by
  rw [generate_eq, nameFaults_eq_nil_iff.2 h]
  rfl

/-- No line of a module has a line end inside it, if its source is generated. -/
theorem unbroken_moduleCode {c : Chart} (hd : c.IsDocument) {header : Bool} {text : String}
    (h : generate c { nestPackages := false, header } = .ok text) :
    ∀ words ∈ (moduleCode c).texts, '\n' ∉ words.toList := by
  have hnames := checkNames_of_generate h
  have hlegible := legible_nest (usableNames_of_checkNames hnames)
    (moduleNames_of_checkNames hnames) hd.wellFormed
  rw [packages_flat] at hlegible
  exact hlegible.unbroken

/-- **Packages only wrap.**  Where source with packages is generated, so is source without them, and
the first is the second with the module wrapped: below the same banner stand the first lines of the
packages, each further in than the one before, then the module, moved in by as much as there are
packages, then the closing braces. -/
theorem generate_nested_eq_wrapText {c : Chart} (hd : c.IsDocument) {header : Bool} {text : String}
    (h : generate c { nestPackages := true, header } = .ok text) :
    ∃ body, generate c { nestPackages := false, header } = .ok (bannerText c header ++ body) ∧
      generate c { nestPackages := false, header := false } = .ok body ∧
      text = bannerText c header ++ wrapText (packagePath c) body := by
  have husable := namesUsable_of_generate h
  have hflat := generate_of_namesUsable (husable.flat false)
  obtain ⟨-, rfl⟩ := generate_eq_ok h
  refine ⟨renderLines ((moduleCode c).lines 0), ?_, ?_, ?_⟩
  · rw [generate_of_namesUsable (husable.flat header), renderLines_sourceLines_eq, packages_flat]
    rfl
  · rw [hflat, renderLines_sourceLines_eq, packages_flat]
    exact congrArg Except.ok String.empty_append
  · rw [renderLines_sourceLines_eq, packages_nested]
    exact congrArg _ (renderLines_nest (packagePath c) (unbroken_moduleCode hd hflat))

/-- A lamp in two packages has the text of its module moved in twice. -/
theorem wrapText_lamp :
    generate (lampIn "home.hall") {} = .ok (renderLines (sourceLines (lampIn "home.hall") {})) ∧
      packagePath (lampIn "home.hall") = ["home", "hall"] ∧
      ∃ body, generate (lampIn "home.hall") { nestPackages := false } =
          .ok (bannerText (lampIn "home.hall") true ++ body) ∧
        renderLines (sourceLines (lampIn "home.hall") {}) =
          bannerText (lampIn "home.hall") true ++
            (lineAt 0 "pub mod home \x7b" ++ lineAt 1 "pub mod hall \x7b" ++ indentText 8 body
              ++ lineAt 1 "\x7d" ++ lineAt 0 "\x7d") := by
  have hread : Chart.ofElement (lampElementIn "home.hall") = .ok (lampIn "home.hall") := rfl
  have hgenerate : generate (lampIn "home.hall") {} =
      .ok (renderLines (sourceLines (lampIn "home.hall") {})) := rfl
  have hpath : packagePath (lampIn "home.hall") = ["home", "hall"] := by decide +kernel
  obtain ⟨body, hflat, -, htext⟩ := generate_nested_eq_wrapText (.read hread) hgenerate
  refine ⟨hgenerate, hpath, body, hflat, ?_⟩
  rw [htext, hpath, wrapText]
  simp [List.range_succ, String.append_assoc]

end Statechart.Source
