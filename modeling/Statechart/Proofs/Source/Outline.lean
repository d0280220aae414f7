import Statechart.Proofs.Source.Reading
set_option autoImplicit false

/-!
# Source: outlines

Reads generated source as a tree of lines, by indentation alone: below a line stand the lines that
follow it and are indented further.  Empty lines do not count.

Of text that was written from code the outline follows the code (`outline_readBack`), as long as the
first line of each piece is read as it was written.  What stands before a line that is not indented
has no part in the outline below it, so that the outline of a text can be taken from where the code
starts (`outline_append`).
-/

namespace Statechart.Source

/-- A line, and the lines that stand further in below it. -/
structure LineTree where
  text : String
  inside : List LineTree
  deriving Repr, Inhabited

/-- Lines as trees. -/
def outline (lines : List SourceLine) : List LineTree :=
  match lines with
  | [] => []
  | line :: rest =>
    ⟨line.text, outline (rest.takeWhile (line.indent < ·.indent))⟩ ::
      outline (rest.dropWhile (line.indent < ·.indent))
termination_by lines.length
decreasing_by
  · exact Nat.lt_succ_of_le (List.takeWhile_sublist _).length_le
  · exact Nat.lt_succ_of_le (List.dropWhile_sublist _).length_le

/-- The lines of a text as trees. -/
def readOutline (text : String) : List LineTree :=
  outline ((readLines text).filter (·.text ≠ ""))

/-- What stands below the last of the lines that reads `head`. -/
def within? (head : String) : List LineTree → Option (List LineTree)
  | [] => none
  | tree :: rest => (within? head rest).or (if tree.text = head then some tree.inside else none)

/-- What stands below the last line of a path, each line being looked for below the one before. -/
def below? : List String → List LineTree → Option (List LineTree)
  | [], trees => some trees
  | head :: path, trees => (within? head trees).bind (below? path)

theorem outline_nil : outline [] = [] := by
  rw [outline]

theorem outline_cons (line : SourceLine) (rest : List SourceLine) :
    outline (line :: rest) =
      ⟨line.text, outline (rest.takeWhile (line.indent < ·.indent))⟩ ::
        outline (rest.dropWhile (line.indent < ·.indent)) := by
  rw [outline]

/-! ## Dividing an outline -/

/-- Where lines are cut that are indented further stop at the cut, or before. -/
theorem takeWhile_append_of_head? {α : Type} {p : α → Bool} {second : List α}
    (h : ∀ x ∈ second.head?, p x = false) (first : List α) :
    (first ++ second).takeWhile p = first.takeWhile p ∧
      (first ++ second).dropWhile p = first.dropWhile p ++ second := by
  induction first with
  | nil =>
    cases second with
    | nil => exact ⟨rfl, rfl⟩
    | cons x second =>
      have hx : ¬ p x = true := by simp [h x rfl]
      exact ⟨List.takeWhile_cons_of_neg hx, List.dropWhile_cons_of_neg hx⟩
  | cons y first ih =>
    by_cases hy : p y = true
    · simp only [List.cons_append, List.takeWhile_cons_of_pos hy, List.dropWhile_cons_of_pos hy, ih,
        and_self]
    · simp only [List.cons_append, List.takeWhile_cons_of_neg hy, List.dropWhile_cons_of_neg hy,
        and_self]

/-- The outline is divided before a line that is indented no further than the lines before it. -/
theorem outline_append {first second : List SourceLine}
    (h : ∀ line ∈ second.head?, ∀ before ∈ first, line.indent ≤ before.indent) :
    outline (first ++ second) = outline first ++ outline second := by
  -- along the lines at the top of the first part
  induction hn : first.length using Nat.strongRecOn generalizing first with
  | ind n ih =>
    cases first with
    | nil => rw [outline_nil]; rfl
    | cons line rest =>
      have hcut : ∀ next ∈ second.head?, decide (line.indent < next.indent) = false := by
        intro next hnext
        have hle := h next hnext line List.mem_cons_self
        exact decide_eq_false (by omega)
      obtain ⟨htake, hdrop⟩ := takeWhile_append_of_head?
        (p := fun next : SourceLine => decide (line.indent < next.indent)) hcut rest
      have hsub := List.dropWhile_sublist
        (l := rest) fun next : SourceLine => decide (line.indent < next.indent)
      have hrest := ih _ (hn ▸ Nat.lt_succ_of_le hsub.length_le)
        (fun next hnext before hbefore =>
          h next hnext before (List.mem_cons_of_mem _ (hsub.subset hbefore))) rfl
      rw [List.cons_append, outline_cons, outline_cons, htake, hdrop, hrest]
      rfl

/-! ## Code -/

/-- The lines of code as they are read, without the empty ones. -/
def Code.readBack (depth : Nat) (codes : List Code) : List SourceLine :=
  ((Code.linesAll depth codes).map CodeLine.read).filter (·.text ≠ "")

/-- The outline of a piece of code. -/
def Code.trees (depth : Nat) (code : Code) : List LineTree :=
  outline (Code.readBack depth [code])

/-- Code whose first line is read as it was written, and that closes with a brace alone. -/
def Code.Headed : Code → Prop
  | .line text => Plain text ∧ text ≠ ""
  | .blank => True
  | .block head _ tail => Plain (head ++ " \x7b") ∧ tail = ""

instance Code.decidableHeaded (code : Code) : Decidable code.Headed :=
  match code with
  | .line text => inferInstanceAs (Decidable (Plain text ∧ text ≠ ""))
  | .blank => inferInstanceAs (Decidable True)
  | .block head _ tail => inferInstanceAs (Decidable (Plain (head ++ " \x7b") ∧ tail = ""))

/-- The lines of a piece of code that stand at its own depth. -/
def Code.heads : Code → List String
  | .line text => [text]
  | .blank => []
  | .block head _ tail => [head ++ " \x7b", "\x7d" ++ tail]

@[simp] theorem Code.readBack_nil (depth : Nat) : Code.readBack depth [] = [] := by
  simp [Code.readBack]

theorem Code.readBack_append (depth : Nat) (first second : List Code) :
    Code.readBack depth (first ++ second) =
      Code.readBack depth first ++ Code.readBack depth second := by
  unfold Code.readBack
  rw [Code.linesAll_append, List.map_append, List.filter_append]

/-- A line is read with at least the indentation it was written with. -/
theorem CodeLine.le_indent_read (depth : Nat) (text : String) :
    4 * depth ≤ (CodeLine.filled depth text).read.indent := by
  unfold CodeLine.read SourceLine.ofChars CodeLine.render
  rw [String.toList_append, String.toList_ofList,
    List.takeWhile_append_of_pos (isBlank_of_mem_replicate _), List.length_append,
    List.length_replicate]
  exact Nat.le_add_right _ _

/-- Code is nowhere read as less indented than where it starts. -/
theorem Code.le_indent_of_mem_readBack {depth : Nat} {codes : List Code} {line : SourceLine}
    (h : line ∈ Code.readBack depth codes) : 4 * depth ≤ line.indent := by
  obtain ⟨hline, hne⟩ := List.mem_filter.1 h
  obtain ⟨written, hwritten, rfl⟩ := List.mem_map.1 hline
  rcases Code.depth_le_of_mem_linesAll depth codes written hwritten with rfl | ⟨d, text, rfl, hd⟩
  · exact absurd hne (by decide)
  · have hle := CodeLine.le_indent_read d text
    omega

theorem Code.readBack_line {text : String} (h : (Code.line text).Headed) (depth : Nat) :
    Code.readBack depth [.line text] = [⟨4 * depth, text⟩] := by
  have hread : (CodeLine.filled depth text).read = ⟨4 * depth, text⟩ :=
    CodeLine.read_of_plain h.1
  have hkept : decide (text ≠ "") = true := decide_eq_true h.2
  simp only [Code.readBack, Code.linesAll, Code.lines, List.append_nil, List.map_cons,
    List.map_nil, hread, List.filter_cons, hkept, if_true, List.filter_nil]

theorem Code.readBack_blank (depth : Nat) : Code.readBack depth [.blank] = [] := by
  simp only [Code.readBack, Code.linesAll, Code.lines, List.append_nil]
  rfl

/-- A block is read as its first line, its body and its closing brace. -/
theorem Code.readBack_block {head : String} {body : List Code} (h : Plain (head ++ " \x7b"))
    (depth : Nat) :
    Code.readBack depth [.block head body] =
      ⟨4 * depth, head ++ " \x7b"⟩ ::
        (Code.readBack (depth + 1) body ++ [⟨4 * depth, "\x7d"⟩]) := by
  have hhead : Code.readBack depth [.line (head ++ " \x7b")] = [⟨4 * depth, head ++ " \x7b"⟩] :=
    Code.readBack_line ⟨h, by simp⟩ depth
  have hclose : Code.readBack depth [.line ("\x7d" ++ "")] = [⟨4 * depth, "\x7d"⟩] :=
    Code.readBack_line (by decide) depth
  unfold Code.readBack at hhead hclose ⊢
  simp only [Code.linesAll, Code.lines, List.append_nil] at hhead hclose ⊢
  rw [List.map_cons, List.map_append, ← List.singleton_append, List.filter_append,
    List.filter_append, ← List.map_singleton, hhead, hclose]
  rfl

theorem Code.trees_line {text : String} (h : (Code.line text).Headed) (depth : Nat) :
    (Code.line text).trees depth = [⟨text, []⟩] := by
  rw [Code.trees, Code.readBack_line h, outline_cons]
  simp [outline_nil]

theorem Code.trees_blank (depth : Nat) : Code.blank.trees depth = [] := by
  rw [Code.trees, Code.readBack_blank, outline_nil]

/-- What stands below the first line of a block is its body. -/
theorem Code.trees_block {head : String} {body : List Code} (h : Plain (head ++ " \x7b"))
    (depth : Nat) :
    (Code.block head body).trees depth =
      [⟨head ++ " \x7b", outline (Code.readBack (depth + 1) body)⟩, ⟨"\x7d", []⟩] := by
  have hinside : ∀ line ∈ Code.readBack (depth + 1) body,
      decide (4 * depth < line.indent) = true := by
    intro line hline
    have hle := Code.le_indent_of_mem_readBack hline
    exact decide_eq_true (by omega)
  rw [Code.trees, Code.readBack_block h, outline_cons, List.takeWhile_append_of_pos hinside,
    List.dropWhile_append_of_pos hinside]
  simp [outline_cons, outline_nil]

/-- The lines at the top of the outline of a piece of code are those at its own depth. -/
theorem Code.map_text_trees {code : Code} (h : code.Headed) (depth : Nat) :
    (code.trees depth).map (·.text) = code.heads := by
  cases code with
  | line text => rw [Code.trees_line h]; rfl
  | blank => rw [Code.trees_blank]; rfl
  | block head body tail =>
    obtain ⟨hhead, rfl⟩ := h
    rw [Code.trees_block hhead]
    rfl

/-- What is read of code starts at the depth of the code. -/
theorem Code.indent_head?_readBack {codes : List Code} (h : ∀ code ∈ codes, code.Headed)
    {depth : Nat} : ∀ line ∈ (Code.readBack depth codes).head?, line.indent = 4 * depth := by
  induction codes with
  | nil => simp
  | cons code codes ih =>
    have hcode := h code List.mem_cons_self
    have hrest := ih fun next hnext => h next (List.mem_cons_of_mem _ hnext)
    rw [← List.singleton_append, Code.readBack_append]
    cases code with
    | line text =>
      rw [Code.readBack_line hcode]
      simp
    | blank =>
      rw [Code.readBack_blank]
      exact hrest
    | block head body tail =>
      obtain ⟨hhead, rfl⟩ := hcode
      rw [Code.readBack_block hhead]
      simp

/-- The outline of pieces of code is that of one after the other. -/
theorem outline_readBack {codes : List Code} (h : ∀ code ∈ codes, code.Headed) (depth : Nat) :
    outline (Code.readBack depth codes) = codes.flatMap (Code.trees depth) := by
  induction codes with
  | nil => rw [Code.readBack_nil, outline_nil]; rfl
  | cons code codes ih =>
    have hrest : ∀ next ∈ codes, next.Headed := fun next hnext =>
      h next (List.mem_cons_of_mem _ hnext)
    rw [← List.singleton_append, Code.readBack_append, outline_append, ih hrest]
    · rfl
    · intro line hline before hbefore
      rw [Code.indent_head?_readBack hrest line hline]
      exact Code.le_indent_of_mem_readBack hbefore

theorem map_text_flatMap_trees {codes : List Code} (h : ∀ code ∈ codes, code.Headed)
    (depth : Nat) :
    (codes.flatMap (Code.trees depth)).map (·.text) = codes.flatMap Code.heads := by
  induction codes with
  | nil => rfl
  | cons code codes ih =>
    rw [List.flatMap_cons, List.map_append, Code.map_text_trees (h code List.mem_cons_self),
      ih fun next hnext => h next (List.mem_cons_of_mem _ hnext), List.flatMap_cons]

/-! ## Looking up blocks -/

/-- The body of the last of the blocks with a given head.  A line that reads like the first line of
such a block stands for an empty one. -/
def lastBody? (head : String) : List Code → Option (List Code)
  | [] => none
  | code :: rest =>
    (lastBody? head rest).or
      (match code with
      | .line text => if text = head ++ " \x7b" then some [] else none
      | .blank => none
      | .block other body _ => if other = head then some body else none)

theorem within?_append (head : String) (first second : List LineTree) :
    within? head (first ++ second) = (within? head second).or (within? head first) := by
  induction first with
  | nil => exact (Option.or_none).symm
  | cons tree first ih => rw [List.cons_append, within?, ih, within?, Option.or_assoc]

/-- Below the first line of a piece of code stands its body. -/
theorem within?_trees {code : Code} (h : code.Headed) (head : String) (depth : Nat) :
    within? (head ++ " \x7b") (code.trees depth) =
      (lastBody? head [code]).map fun body => outline (Code.readBack (depth + 1) body) := by
  cases code with
  | line text =>
    rw [Code.trees_line h]
    by_cases heq : text = head ++ " \x7b" <;> simp [within?, lastBody?, heq, outline_nil]
  | blank => rw [Code.trees_blank]; rfl
  | block other body tail =>
    obtain ⟨hplain, rfl⟩ := h
    have hinj : other ++ " \x7b" = head ++ " \x7b" ↔ other = head := by
      refine ⟨fun heq => ?_, fun heq => heq ▸ rfl⟩
      have hlist := congrArg String.toList heq
      rw [String.toList_append, String.toList_append] at hlist
      exact String.toList_inj.1 (List.append_cancel_right hlist)
    rw [Code.trees_block hplain]
    by_cases heq : other = head <;> simp [within?, lastBody?, heq, hinj, closing_ne_head head]

theorem lastBody?_cons (head : String) (code : Code) (rest : List Code) :
    lastBody? head (code :: rest) = (lastBody? head rest).or (lastBody? head [code]) := rfl

/-- Blocks are found in the outline of code as in the code. -/
theorem within?_flatMap_trees {codes : List Code} (h : ∀ code ∈ codes, code.Headed)
    (head : String) (depth : Nat) :
    within? (head ++ " \x7b") (codes.flatMap (Code.trees depth)) =
      (lastBody? head codes).map fun body => outline (Code.readBack (depth + 1) body) := by
  induction codes with
  | nil => rfl
  | cons code codes ih =>
    rw [List.flatMap_cons, within?_append,
      ih fun next hnext => h next (List.mem_cons_of_mem _ hnext),
      within?_trees (h code List.mem_cons_self), lastBody?_cons head code codes]
    cases lastBody? head codes <;> simp

end Statechart.Source
