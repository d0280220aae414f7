import Statechart.Proofs.Text.Lines
import Statechart.Source.Code
set_option autoImplicit false

/-!
# Source: reading

Reads generated source the way a person does who knows its layout: by the words of a line and by how
far the line is indented.  A block is what stands below its first line and further in.

The readers are defined on any text.  Of text that was written from code the lines of a block are
the lines of the block's body (`takeWhile_isInside_linesAll`).  What is said of fixed words is
decided by their bytes (`bytesOf`).
-/

namespace Statechart.Source

/-- A line of a text: how far it is indented, and its words. -/
structure SourceLine where
  indent : Nat
  text : String
  deriving DecidableEq, Repr, Inhabited

/-- The line that characters make up. -/
def SourceLine.ofChars (cs : List Char) : SourceLine where
  indent := (cs.takeWhile (· = ' ')).length
  text := String.ofList (cs.dropWhile (· = ' '))

/-- The lines of a text. -/
def readLines (text : String) : List SourceLine :=
  (Text.lines text.toList).map .ofChars

/-- Whether a line can stand in a block whose first line is indented by `indent`. -/
def SourceLine.isInside (indent : Nat) (line : SourceLine) : Bool :=
  line.text = "" || indent < line.indent

/-- The lines of the block below the last line that reads `head`. -/
def lastBlock? (head : String) : List SourceLine → Option (List SourceLine)
  | [] => none
  | line :: rest =>
    (lastBlock? head rest).or
      (if line.text = head then some (rest.takeWhile (·.isInside line.indent)) else none)

/-- An arm of a match: its first line, and the lines of its body. -/
structure Arm where
  head : String
  body : List String
  deriving DecidableEq, Repr, Inhabited

/-- Whether a line is the first of an arm with a body. -/
def SourceLine.opensArm (line : SourceLine) : Bool :=
  " => \x7b".toList.isSuffixOf line.text.toList

/-- The arms that start on the given lines, in order. -/
def readArms : List SourceLine → List Arm
  | [] => []
  | line :: rest =>
    if line.opensArm then
      ⟨line.text, (rest.takeWhile (·.isInside line.indent)).map (·.text)⟩ :: readArms rest
    else readArms rest

/-! ## Lines that were written -/

/-- Words that are read as they are written: there is no line end in them, and no blank in front. -/
structure Plain (text : String) : Prop where
  not_mem : '\n' ∉ text.toList
  head_ne : text.toList.head? ≠ some ' '

instance (text : String) : Decidable (Plain text) :=
  decidable_of_iff ('\n' ∉ text.toList ∧ text.toList.head? ≠ some ' ')
    ⟨fun h => ⟨h.1, h.2⟩, fun h => ⟨h.not_mem, h.head_ne⟩⟩

/-- The words of a line. -/
def CodeLine.text : CodeLine → String
  | .blank => ""
  | .filled _ text => text

/-- A line of code as it is read. -/
def CodeLine.toSource : CodeLine → SourceLine
  | .blank => ⟨0, ""⟩
  | .filled depth text => ⟨4 * depth, text⟩

@[simp] theorem CodeLine.toSource_text (line : CodeLine) : line.toSource.text = line.text := by
  cases line <;> rfl

theorem CodeLine.toList_render (line : CodeLine) :
    ∃ n, line.render.toList = List.replicate n ' ' ++ line.text.toList := by
  cases line with
  | blank => exact ⟨0, rfl⟩
  | filled depth text => exact ⟨4 * depth, by simp [CodeLine.render, CodeLine.text]⟩

theorem CodeLine.not_mem_render {line : CodeLine} (h : '\n' ∉ line.text.toList) :
    '\n' ∉ line.render.toList := by
  obtain ⟨n, hn⟩ := line.toList_render
  rw [hn, List.mem_append, List.mem_replicate]
  rintro (⟨_, heq⟩ | hmem)
  · exact absurd heq (by decide)
  · exact h hmem

/-- A line of code as its text is read. -/
def CodeLine.read (line : CodeLine) : SourceLine :=
  .ofChars line.render.toList

/-- What a line is indented by is skipped when it is read. -/
theorem isBlank_of_mem_replicate (n : Nat) :
    ∀ c ∈ List.replicate n ' ', decide (c = ' ') = true := by
  intro c hc
  exact decide_eq_true (List.eq_of_mem_replicate hc)

/-- Plain words are read back with the depth at which they were written. -/
theorem CodeLine.read_of_plain {line : CodeLine} (h : Plain line.text) :
    line.read = line.toSource := by
  cases line with
  | blank => rfl
  | filled depth text =>
    have hhead : text.toList.head? ≠ some ' ' := h.head_ne
    have hfront : text.toList.takeWhile (· = ' ') = [] ∧
        text.toList.dropWhile (· = ' ') = text.toList := by
      cases hcs : text.toList with
      | nil => exact ⟨rfl, rfl⟩
      | cons c cs =>
        have hc : ¬ c = ' ' := by
          rintro rfl
          simp [hcs] at hhead
        simp [hc]
    unfold CodeLine.read SourceLine.ofChars CodeLine.render CodeLine.toSource
    rw [String.toList_append, String.toList_ofList,
      List.takeWhile_append_of_pos (isBlank_of_mem_replicate _),
      List.dropWhile_append_of_pos (isBlank_of_mem_replicate _), hfront.1, hfront.2]
    simp

theorem toList_renderLines_cons (line : CodeLine) (lines : List CodeLine) :
    (renderLines (line :: lines)).toList =
      line.render.toList ++ '\n' :: (renderLines lines).toList := by
  simp [renderLines, String.join_cons]

theorem renderLines_append (first second : List CodeLine) :
    renderLines (first ++ second) = renderLines first ++ renderLines second := by
  simp [renderLines, String.join_append]

/-- The lines of a text are those that it was written from, if there is no line end in them. -/
theorem lines_renderLines {lines : List CodeLine} (h : ∀ line ∈ lines, '\n' ∉ line.text.toList) :
    Text.lines (renderLines lines).toList = lines.map fun line => line.render.toList := by
  induction lines with
  | nil => rfl
  | cons line lines ih =>
    rw [toList_renderLines_cons,
      Text.lines_append_of_not_mem (CodeLine.not_mem_render (h line List.mem_cons_self)),
      ih fun l hl => h l (List.mem_cons_of_mem _ hl), List.map_cons]

/-- Lines without a line end in them are read one by one. -/
theorem readLines_renderLines_of_not_mem {lines : List CodeLine}
    (h : ∀ line ∈ lines, '\n' ∉ line.text.toList) :
    readLines (renderLines lines) = lines.map CodeLine.read := by
  rw [readLines, lines_renderLines h, List.map_map]
  rfl

/-- Plain lines are read back. -/
theorem readLines_renderLines {lines : List CodeLine} (h : ∀ line ∈ lines, Plain line.text) :
    readLines (renderLines lines) = lines.map CodeLine.toSource :=
  (readLines_renderLines_of_not_mem fun line hline => (h line hline).not_mem).trans
    (List.map_congr_left fun line hline => CodeLine.read_of_plain (h line hline))

/-- Lines are read independently of those before them. -/
theorem readLines_append (first second : List CodeLine) :
    readLines (renderLines (first ++ second)) =
      readLines (renderLines first) ++ readLines (renderLines second) := by
  unfold readLines
  rw [renderLines_append, String.toList_append, ← List.map_append]
  congr 1
  induction first with
  | nil => rfl
  | cons line first ih =>
    rw [toList_renderLines_cons, List.append_assoc, List.cons_append, Text.lines_append_newline,
      ih, ← List.append_assoc, ← Text.lines_append_newline]

/-! ## Blocks that were written -/

mutual

/-- Code is nowhere less indented than where it starts. -/
theorem Code.depth_le_of_mem_lines (depth : Nat) : ∀ (code : Code), ∀ line ∈ code.lines depth,
    line = .blank ∨ ∃ d text, line = .filled d text ∧ depth ≤ d
  | .line text => by
    intro line hline
    rw [Code.lines, List.mem_singleton] at hline
    exact Or.inr ⟨depth, text, hline, Nat.le_refl _⟩
  | .blank => by
    intro line hline
    rw [Code.lines, List.mem_singleton] at hline
    exact Or.inl hline
  | .block head body tail => by
    intro line hline
    rw [Code.lines, List.mem_cons, List.mem_append, List.mem_singleton] at hline
    rcases hline with rfl | hbody | rfl
    · exact Or.inr ⟨depth, _, rfl, Nat.le_refl _⟩
    · rcases Code.depth_le_of_mem_linesAll (depth + 1) body line hbody with
        hblank | ⟨d, text, heq, hd⟩
      · exact Or.inl hblank
      · exact Or.inr ⟨d, text, heq, by omega⟩
    · exact Or.inr ⟨depth, _, rfl, Nat.le_refl _⟩

theorem Code.depth_le_of_mem_linesAll (depth : Nat) : ∀ (codes : List Code),
    ∀ line ∈ Code.linesAll depth codes,
      line = .blank ∨ ∃ d text, line = .filled d text ∧ depth ≤ d
  | [] => by
    intro line hline
    rw [Code.linesAll] at hline
    exact nomatch hline
  | code :: rest => by
    intro line hline
    rw [Code.linesAll, List.mem_append] at hline
    rcases hline with hcode | hrest
    · exact Code.depth_le_of_mem_lines depth code line hcode
    · exact Code.depth_le_of_mem_linesAll depth rest line hrest

end

@[simp] theorem Code.linesAll_nil (depth : Nat) : Code.linesAll depth [] = [] := by
  rw [Code.linesAll]

theorem Code.linesAll_cons (depth : Nat) (code : Code) (rest : List Code) :
    Code.linesAll depth (code :: rest) = code.lines depth ++ Code.linesAll depth rest := by
  rw [Code.linesAll]

theorem Code.linesAll_append (depth : Nat) (first second : List Code) :
    Code.linesAll depth (first ++ second) =
      Code.linesAll depth first ++ Code.linesAll depth second := by
  induction first with
  | nil => simp
  | cons code first ih =>
    rw [List.cons_append, Code.linesAll_cons, Code.linesAll_cons, ih, List.append_assoc]

mutual

/-- The words of the lines of a piece of code. -/
def Code.texts : Code → List String
  | .line text => [text]
  | .blank => [""]
  | .block head body tail => (head ++ " \x7b") :: (Code.textsAll body ++ ["\x7d" ++ tail])

/-- The words of the lines of pieces of code. -/
def Code.textsAll : List Code → List String
  | [] => []
  | code :: rest => code.texts ++ Code.textsAll rest

end

mutual

/-- The words of a line do not depend on its depth. -/
theorem Code.map_text_lines (depth : Nat) : ∀ code : Code,
    (code.lines depth).map CodeLine.text = code.texts
  | .line text => by rw [Code.lines, Code.texts]; rfl
  | .blank => by rw [Code.lines, Code.texts]; rfl
  | .block head body tail => by
    rw [Code.lines, Code.texts, List.map_cons, List.map_append,
      Code.map_text_linesAll (depth + 1) body]
    rfl

theorem Code.map_text_linesAll (depth : Nat) : ∀ codes : List Code,
    (Code.linesAll depth codes).map CodeLine.text = Code.textsAll codes
  | [] => by rw [Code.linesAll, Code.textsAll]; rfl
  | code :: rest => by
    rw [Code.linesAll, Code.textsAll, List.map_append, Code.map_text_lines depth code,
      Code.map_text_linesAll depth rest]

end

@[simp] theorem Code.textsAll_nil : Code.textsAll [] = [] := by
  rw [Code.textsAll]

@[simp] theorem Code.textsAll_cons (code : Code) (rest : List Code) :
    Code.textsAll (code :: rest) = code.texts ++ Code.textsAll rest := by
  rw [Code.textsAll]

theorem Code.textsAll_eq_flatMap (codes : List Code) :
    Code.textsAll codes = codes.flatMap Code.texts := by
  induction codes with
  | nil => exact Code.textsAll_nil
  | cons code codes ih => rw [Code.textsAll_cons, ih, List.flatMap_cons]

theorem Code.textsAll_append (first second : List Code) :
    Code.textsAll (first ++ second) = Code.textsAll first ++ Code.textsAll second := by
  rw [Code.textsAll_eq_flatMap, Code.textsAll_eq_flatMap, Code.textsAll_eq_flatMap,
    List.flatMap_append]

/-- The words that are read from the lines of code. -/
theorem Code.map_text_toSource (depth : Nat) (codes : List Code) :
    ((Code.linesAll depth codes).map CodeLine.toSource).map (·.text) = Code.textsAll codes := by
  rw [List.map_map, ← Code.map_text_linesAll depth codes]
  exact List.map_congr_left fun line _ => line.toSource_text

theorem Code.text_mem_texts {depth : Nat} {code : Code} {line : CodeLine}
    (h : line ∈ code.lines depth) : line.text ∈ code.texts := by
  rw [← Code.map_text_lines depth code]
  exact List.mem_map_of_mem h

theorem Code.text_mem_textsAll {depth : Nat} {codes : List Code} {line : SourceLine}
    (h : line ∈ (Code.linesAll depth codes).map CodeLine.toSource) :
    line.text ∈ Code.textsAll codes := by
  rw [← Code.map_text_toSource depth codes]
  exact List.mem_map_of_mem h

/-- A block is read as its first line, its body and its closing brace. -/
theorem Code.map_toSource_block (head : String) (body : List Code) (depth : Nat)
    (rest : List SourceLine) :
    ((Code.block head body).lines depth).map CodeLine.toSource ++ rest =
      ⟨4 * depth, head ++ " \x7b"⟩ :: ((Code.linesAll (depth + 1) body).map CodeLine.toSource ++
        ⟨4 * depth, "\x7d"⟩ :: rest) := by
  rw [Code.lines, List.map_cons, List.map_append, List.cons_append, List.append_assoc]
  rfl

/-- The block below a line that was written at a depth, up to a line that was written at the same
depth, is what was written in between. -/
theorem takeWhile_isInside_linesAll (depth : Nat) (body : List Code) {text : String}
    (htext : text ≠ "") (rest : List SourceLine) :
    ((Code.linesAll (depth + 1) body).map CodeLine.toSource ++ ⟨4 * depth, text⟩ :: rest).takeWhile
        (·.isInside (4 * depth)) =
      (Code.linesAll (depth + 1) body).map CodeLine.toSource := by
  have hinside : ∀ line ∈ (Code.linesAll (depth + 1) body).map CodeLine.toSource,
      line.isInside (4 * depth) = true := by
    intro line hline
    obtain ⟨written, hwritten, rfl⟩ := List.mem_map.1 hline
    rcases Code.depth_le_of_mem_linesAll (depth + 1) body written hwritten with
      rfl | ⟨d, t, rfl, hd⟩
    · rfl
    · have hlt : 4 * depth < 4 * d := by omega
      simp [CodeLine.toSource, SourceLine.isInside, hlt]
  have hstop : ¬ SourceLine.isInside (4 * depth) ⟨4 * depth, text⟩ = true := by
    simp [SourceLine.isInside, htext]
  rw [List.takeWhile_append_of_pos hinside, List.takeWhile_cons_of_neg hstop, List.append_nil]

/-- A function that succeeds on all members of a list succeeds on the list. -/
theorem mapM_eq_pure {m : Type → Type} [Monad m] [LawfulMonad m] {α β : Type} {f : α → m β}
    {g : α → β} {xs : List α} (h : ∀ x ∈ xs, f x = pure (g x)) :
    xs.mapM f = pure (xs.map g) := by
  induction xs with
  | nil => exact List.mapM_nil
  | cons x xs ih =>
    rw [List.mapM_cons, h x List.mem_cons_self, ih fun y hy => h y (List.mem_cons_of_mem _ hy),
      pure_bind, pure_bind, List.map_cons]

/-! ## Finding blocks and arms -/

/-- Lines that come before do not matter to what is found. -/
theorem lastBlock?_append_of_some {head : String} {first second block : List SourceLine}
    (h : lastBlock? head second = some block) : lastBlock? head (first ++ second) = some block := by
  induction first with
  | nil => exact h
  | cons line first ih =>
    rw [List.cons_append, lastBlock?, ih]
    rfl

theorem lastBlock?_of_not_mem {head : String} {lines : List SourceLine}
    (h : ∀ line ∈ lines, line.text ≠ head) : lastBlock? head lines = none := by
  induction lines with
  | nil => rfl
  | cons line lines ih =>
    rw [lastBlock?, ih fun l hl => h l (List.mem_cons_of_mem _ hl),
      if_neg (h line List.mem_cons_self)]
    rfl

/-- The last block with a given first line is the block below that line. -/
theorem lastBlock?_eq {indent : Nat} {head : String} {before rest : List SourceLine}
    (h : ∀ line ∈ rest, line.text ≠ head) :
    lastBlock? head (before ++ ⟨indent, head⟩ :: rest) =
      some (rest.takeWhile (·.isInside indent)) := by
  refine lastBlock?_append_of_some ?_
  rw [lastBlock?, lastBlock?_of_not_mem h, if_pos rfl]
  rfl

/-- A closing brace is no head of a block. -/
theorem closing_ne_head (head : String) : "\x7d" ≠ head ++ " \x7b" := by
  intro heq
  have hlast := congrArg (fun text => text.toList.getLast?) heq
  simp at hlast

/-- The last block with a given first line, where it was written as a block. -/
theorem lastBlock?_block {head : String} {body : List Code} {rest : List SourceLine}
    (hbody : ∀ text ∈ Code.textsAll body, text ≠ head ++ " \x7b")
    (hrest : ∀ line ∈ rest, line.text ≠ head ++ " \x7b") (before : List SourceLine) (depth : Nat) :
    lastBlock? (head ++ " \x7b")
        (before ++ (((Code.block head body).lines depth).map CodeLine.toSource ++ rest)) =
      some ((Code.linesAll (depth + 1) body).map CodeLine.toSource) := by
  have hnot : ∀ line ∈ (Code.linesAll (depth + 1) body).map CodeLine.toSource ++
      ⟨4 * depth, "\x7d"⟩ :: rest, line.text ≠ head ++ " \x7b" := by
    intro line hline
    rcases List.mem_append.1 hline with hline | hline
    · exact hbody _ (Code.text_mem_textsAll hline)
    · rcases List.mem_cons.1 hline with rfl | hline
      · exact closing_ne_head head
      · exact hrest line hline
  rw [Code.map_toSource_block, lastBlock?_eq hnot,
    takeWhile_isInside_linesAll depth body (by decide) rest]

theorem readArms_append_of_not_opens {first : List SourceLine}
    (h : ∀ line ∈ first, line.opensArm = false) (second : List SourceLine) :
    readArms (first ++ second) = readArms second := by
  induction first with
  | nil => rfl
  | cons line first ih =>
    rw [List.cons_append, readArms, h line List.mem_cons_self]
    exact ih fun l hl => h l (List.mem_cons_of_mem _ hl)

/-- A line whose last character is no opening brace opens no arm. -/
theorem opensArm_eq_false {line : SourceLine} (h : line.text.toList.getLast? ≠ some '\x7b') :
    line.opensArm = false := by
  cases hopens : line.opensArm with
  | false => rfl
  | true =>
    obtain ⟨front, hfront⟩ := List.isSuffixOf_iff_suffix.1 hopens
    rw [← hfront] at h
    simp at h

/-! ## Fixed words

To look at the bytes of words takes far less computing than to take the words apart into
characters. -/

/-- The bytes of a text. -/
def bytesOf (text : String) : List UInt8 :=
  text.toByteArray.data.toList

theorem bytesOf_eq (text : String) : bytesOf text = text.toList.flatMap String.utf8EncodeChar := by
  rw [bytesOf, ← String.utf8Encode_toList, List.utf8Encode, List.data_toByteArray]

/-- All bytes of a character that is not ASCII are high ones. -/
theorem high_of_mem_utf8EncodeChar {ch : Char} (h : ¬ ch.val.toNat ≤ 127) :
    ∀ byte ∈ String.utf8EncodeChar ch, 128 ≤ byte.toNat := by
  have hsmall : ∀ n : Nat, 128 ≤ n → n < 256 → 128 ≤ (UInt8.ofNat n).toNat := by
    intro n hn hlt
    rw [UInt8.toNat_ofNat']
    omega
  rw [String.utf8EncodeChar, if_neg h]
  split
  · simp only [List.mem_cons, List.not_mem_nil, or_false]
    rintro byte (rfl | rfl) <;> exact hsmall _ (by omega) (by omega)
  · split
    · simp only [List.mem_cons, List.not_mem_nil, or_false]
      rintro byte (rfl | rfl | rfl) <;> exact hsmall _ (by omega) (by omega)
    · simp only [List.mem_cons, List.not_mem_nil, or_false]
      rintro byte (rfl | rfl | rfl | rfl) <;> exact hsmall _ (by omega) (by omega)

theorem not_mem_of_bytesOf {text : String} (h : (bytesOf text).all (· ≠ 10) = true) :
    '\n' ∉ text.toList := by
  intro hmem
  have hbyte : 10 ∈ bytesOf text := by
    rw [bytesOf_eq, List.mem_flatMap]
    exact ⟨'\n', hmem, by decide⟩
  exact absurd (List.all_eq_true.1 h 10 hbyte) (by decide)

theorem head?_of_bytesOf {text : String} (h : (bytesOf text).head?.any (· ≠ 32) = true) :
    text ≠ "" ∧ text.toList.head? ≠ some ' ' := by
  constructor
  · rintro rfl
    exact absurd h (by decide)
  · intro hhead
    obtain ⟨cs, hcs⟩ := List.head?_eq_some_iff.1 hhead
    have hblank : (bytesOf text).head? = some 32 := by
      rw [bytesOf_eq, hcs, List.flatMap_cons]
      rfl
    rw [hblank] at h
    exact absurd h (by decide)

/-- What holds of an ASCII byte that a text starts with holds of its first character. -/
theorem head?_any_of_bytesOf {p : Char → Bool} {text : String}
    (h : (bytesOf text).head?.any (fun byte =>
      byte.toNat < 128 && p (Char.ofNat byte.toNat)) = true) :
    text.toList.head?.any p = true := by
  rw [bytesOf_eq] at h
  cases hcs : text.toList with
  | nil =>
    rw [hcs] at h
    cases h
  | cons ch chars =>
    obtain ⟨byte, bytes, hbytes⟩ :=
      List.exists_cons_of_ne_nil (String.utf8EncodeChar_ne_nil (c := ch))
    rw [hcs, List.flatMap_cons, hbytes] at h
    obtain ⟨hlow, hp⟩ := Bool.and_eq_true_iff.1 h
    have hlow := of_decide_eq_true hlow
    by_cases hascii : ch.val.toNat ≤ 127
    · rw [String.utf8EncodeChar, if_pos hascii] at hbytes
      have hbyte : byte.toNat = ch.toNat := by
        rw [← (List.cons.inj hbytes).1]
        exact Nat.mod_eq_of_lt (by omega)
      rwa [hbyte, Char.ofNat_toNat] at hp
    · have hhigh := high_of_mem_utf8EncodeChar hascii byte (hbytes ▸ List.mem_cons_self)
      omega

theorem getLast?_of_bytesOf {text : String} (h : (bytesOf text).getLast? ≠ some 123) :
    text.toList.getLast? ≠ some '\x7b' := by
  intro hlast
  obtain ⟨front, hfront⟩ := List.getLast?_eq_some_iff.1 hlast
  refine h ?_
  rw [bytesOf_eq, hfront, List.flatMap_append, List.getLast?_append]
  rfl

theorem isPrefixOf_bytesOf {front text : String} (h : front.toList <+: text.toList) :
    (bytesOf front).isPrefixOf (bytesOf text) = true := by
  obtain ⟨rest, hrest⟩ := h
  rw [List.isPrefixOf_iff_prefix, bytesOf_eq, bytesOf_eq, ← hrest, List.flatMap_append]
  exact List.prefix_append _ _

theorem isPrefixOf_eq_false_of_bytesOf {front text : String}
    (h : (bytesOf front).isPrefixOf (bytesOf text) = false) :
    front.toList.isPrefixOf text.toList = false := by
  cases hstarts : front.toList.isPrefixOf text.toList with
  | false => rfl
  | true => rwa [isPrefixOf_bytesOf (List.isPrefixOf_iff_prefix.1 hstarts)] at h

/-- Whether words are read as they are written. -/
def looksPlain (text : String) : Bool :=
  (bytesOf text).all (· ≠ 10) && (bytesOf text).head?.any (· ≠ 32)

theorem plain_of_looksPlain {text : String} (h : looksPlain text = true) : Plain text := by
  obtain ⟨hline, hhead⟩ := Bool.and_eq_true_iff.1 h
  exact ⟨not_mem_of_bytesOf hline, (head?_of_bytesOf hhead).2⟩

theorem ne_empty_of_looksPlain {text : String} (h : looksPlain text = true) : text ≠ "" :=
  (head?_of_bytesOf (Bool.and_eq_true_iff.1 h).2).1

end Statechart.Source
