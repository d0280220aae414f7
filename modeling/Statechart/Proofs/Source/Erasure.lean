import Statechart.Proofs.Source.Excerpts
import Statechart.Proofs.Source.Marks
set_option autoImplicit false

/-!
# Source: leaving out what is told to the logger

`withoutLogging` takes out of a text the lines that tell the logger of something, and the functions
they call.  `Logged` relates code that does its logging to the same code without: it has one rule for
each thing that is added.  What holds of the two texts then follows from the rules: the second is the
first without logging (`Logged.eraseLogging_eq`), and the first tells the logger of an event as often
as there are arms, and of an action directly before each call of its hook (`Logged.tells`).
-/

namespace Statechart.Source

/-! ## Texts without logging -/

/-- The line that tells the logger of the state. -/
def stateLine : String := "self.log_state(state);"

/-- The action that a line tells the logger of. -/
def notedAction? (words : String) : Option String :=
  between? "self.log_action(\"" "\");" words

/-- The action in snake case whose hook a line calls. -/
def calledHook? (words : String) : Option String :=
  between? "self.after_hook(self.hooks.on_action_" "(self))?;" words

/-- The first lines of the functions that tell the logger of something. -/
def loggerHeads : List String :=
  ["fn log_event(&self, event: Event) \x7b", "fn log_action(&self, action: &str) \x7b",
    "fn log_state(&self, state: State) \x7b"]

/-- Whether a line tells the logger of something. -/
def SourceLine.callsLogger (line : SourceLine) : Bool :=
  line.text = eventLine || line.text = stateLine || (notedAction? line.text).isSome

/-- Whether a line is the first of a function that tells the logger of something. -/
def SourceLine.opensLogger (line : SourceLine) : Bool :=
  line.text ∈ loggerHeads

/-- Whether the first of some lines is the first of such a function. -/
def startsLogger (lines : List SourceLine) : Bool :=
  lines.head?.any SourceLine.opensLogger

theorem startsLogger_cons (line : SourceLine) (rest : List SourceLine) :
    startsLogger (line :: rest) = line.opensLogger := rfl

/-- Lines without those that tell the logger of something, without the functions that do it, and
without the empty line before each of these.  Inside such a function `skipping?` is the indentation
of its first line; it ends with the next line that is not further in. -/
def eraseLogging (skipping? : Option Nat) : List SourceLine → List SourceLine
  | [] => []
  | line :: rest =>
    match skipping? with
    | some indent => eraseLogging (if line.isInside indent then some indent else none) rest
    | none =>
      if line.callsLogger then eraseLogging none rest
      else if line.opensLogger then eraseLogging (some line.indent) rest
      else if line.text = "" && startsLogger rest then eraseLogging none rest
      else line :: eraseLogging none rest

/-- The characters of a line. -/
def SourceLine.chars (line : SourceLine) : List Char :=
  List.replicate line.indent ' ' ++ line.text.toList

/-- The text of lines. -/
def writeLines (lines : List SourceLine) : String :=
  String.ofList (lines.flatMap fun line => line.chars ++ ['\n'])

/-- A text without what is told to the logger. -/
def withoutLogging (text : String) : String :=
  writeLines (eraseLogging none (readLines text))

theorem SourceLine.chars_ofChars (cs : List Char) : (SourceLine.ofChars cs).chars = cs := by
  have hblanks : List.replicate (cs.takeWhile (· = ' ')).length ' ' = cs.takeWhile (· = ' ') := by
    refine (List.eq_replicate_of_mem fun c hc => ?_).symm
    exact of_decide_eq_true (List.all_eq_true.1 List.all_takeWhile c hc)
  unfold SourceLine.chars SourceLine.ofChars
  rw [hblanks, String.toList_ofList, List.takeWhile_append_dropWhile]

/-- Lines of code that are read are written as before. -/
theorem writeLines_map_read (lines : List CodeLine) :
    writeLines (lines.map CodeLine.read) = renderLines lines := by
  apply String.toList_inj.1
  rw [writeLines, String.toList_ofList, List.flatMap_map]
  induction lines with
  | nil => rfl
  | cons line lines ih =>
    have hline : line.read.chars = line.render.toList := SourceLine.chars_ofChars _
    rw [List.flatMap_cons, ih, toList_renderLines_cons, hline, List.append_assoc,
      List.singleton_append]

/-- Lines that were read can be written and read again. -/
theorem readLines_writeLines {lines : List SourceLine}
    (h : ∀ line ∈ lines, ∃ cs, '\n' ∉ cs ∧ line = .ofChars cs) :
    readLines (writeLines lines) = lines := by
  unfold readLines writeLines
  rw [String.toList_ofList]
  induction lines with
  | nil => rfl
  | cons line lines ih =>
    obtain ⟨cs, hcs, rfl⟩ := h line List.mem_cons_self
    rw [List.flatMap_cons, SourceLine.chars_ofChars, List.append_assoc, List.singleton_append,
      Text.lines_append_of_not_mem hcs, List.map_cons,
      ih fun next hnext => h next (List.mem_cons_of_mem _ hnext)]

/-- What is left of lines is among them and tells the logger of nothing. -/
theorem mem_of_mem_eraseLogging {skipping? : Option Nat} {lines : List SourceLine}
    {line : SourceLine} (h : line ∈ eraseLogging skipping? lines) :
    line ∈ lines ∧ line.callsLogger = false := by
  fun_induction eraseLogging skipping? lines with
  | case1 => exact absurd h List.not_mem_nil
  | case2 first rest indent ih => exact (ih h).imp_left (List.mem_cons_of_mem _)
  | case3 first rest hcalls ih => exact (ih h).imp_left (List.mem_cons_of_mem _)
  | case4 first rest hcalls hopens ih => exact (ih h).imp_left (List.mem_cons_of_mem _)
  | case5 first rest hcalls hopens hblank ih => exact (ih h).imp_left (List.mem_cons_of_mem _)
  | case6 first rest hcalls hopens hblank ih =>
    rcases List.mem_cons.1 h with rfl | h
    · exact ⟨List.mem_cons_self, Bool.eq_false_iff.2 hcalls⟩
    · exact (ih h).imp_left (List.mem_cons_of_mem _)

/-- No line of a text without logging tells the logger of something. -/
theorem callsLogger_of_mem_withoutLogging {text : String} {line : SourceLine}
    (h : line ∈ readLines (withoutLogging text)) : line.callsLogger = false := by
  have hread : ∀ line ∈ eraseLogging none (readLines text), ∃ cs, '\n' ∉ cs ∧ line = .ofChars cs := by
    intro line hline
    obtain ⟨cs, hcs, hline⟩ := List.mem_map.1 (mem_of_mem_eraseLogging hline).1
    exact ⟨cs, Text.not_mem_of_mem_lines hcs, hline.symm⟩
  rw [withoutLogging, readLines_writeLines hread] at h
  exact (mem_of_mem_eraseLogging h).2

/-! ## Single lines -/

/-- The line is none of those that are left out. -/
def Kept (line : SourceLine) : Prop :=
  line.callsLogger = false ∧ line.opensLogger = false

theorem eraseLogging_cons_of_kept {line : SourceLine} (h : Kept line) {rest : List SourceLine}
    (hrest : startsLogger rest = false) :
    eraseLogging none (line :: rest) = line :: eraseLogging none rest := by
  rw [eraseLogging, h.1, h.2, hrest, Bool.and_false]
  rfl

theorem startsLogger_append {lines rest : List SourceLine} (h : ∀ line ∈ lines, Kept line)
    (hrest : startsLogger rest = false) : startsLogger (lines ++ rest) = false := by
  cases lines with
  | nil => exact hrest
  | cons line lines => exact (startsLogger_cons _ _).trans (h line List.mem_cons_self).2

theorem eraseLogging_append {lines rest : List SourceLine} (h : ∀ line ∈ lines, Kept line)
    (hrest : startsLogger rest = false) :
    eraseLogging none (lines ++ rest) = lines ++ eraseLogging none rest := by
  induction lines with
  | nil => rfl
  | cons line lines ih =>
    have htail : ∀ line ∈ lines, Kept line := fun next hnext => h next (List.mem_cons_of_mem _ hnext)
    rw [List.cons_append, eraseLogging_cons_of_kept (h line List.mem_cons_self)
      (startsLogger_append htail hrest), ih htail, List.cons_append]

/-- A function is skipped up to the first line that is not inside it. -/
theorem eraseLogging_skipping (indent : Nat) (lines : List SourceLine) :
    eraseLogging (some indent) lines =
      eraseLogging none (lines.dropWhile (·.isInside indent)).tail := by
  induction lines with
  | nil => rfl
  | cons line lines ih =>
    cases hinside : line.isInside indent with
    | true => rw [eraseLogging, hinside, if_pos rfl, ih, List.dropWhile_cons_of_pos hinside]
    | false =>
      rw [eraseLogging, hinside, List.dropWhile_cons_of_neg (by simp [hinside]), List.tail_cons]
      rfl

/-! ## Words -/

theorem CodeLine.text_read (line : CodeLine) : line.read.text = bare line.text := by
  cases line with
  | blank => rfl
  | filled depth text =>
    apply String.toList_inj.1
    unfold CodeLine.read CodeLine.render
    rw [CodeLine.text, toList_bare, SourceLine.ofChars, String.toList_ofList, String.toList_append,
      String.toList_ofList, List.dropWhile_append_of_pos (isBlank_of_mem_replicate _)]

/-- A line that starts with a text starts with what the text starts with. -/
theorem isPrefix_of_between? {front more back text inside : String}
    (h : between? (front ++ more) back text = some inside) : front.toList <+: text.toList := by
  cases hstarts : front.toList.isPrefixOf text.toList with
  | true => exact List.isPrefixOf_iff_prefix.1 hstarts
  | false =>
    rw [between?_eq_none hstarts] at h
    cases h

theorem isPrefix_of_notedAction? {words action : String} (h : notedAction? words = some action) :
    "self.log_".toList <+: words.toList := by
  have hwords : "self.log_action(\"" = "self.log_" ++ "action(\"" := by decide
  rw [notedAction?, hwords] at h
  exact isPrefix_of_between? h

theorem isPrefix_of_calledHook? {words hook : String} (h : calledHook? words = some hook) :
    hookMark.toList <+: words.toList := by
  have hwords : "self.after_hook(self.hooks.on_action_" = hookMark ++ "" := by decide
  rw [calledHook?, hwords] at h
  exact isPrefix_of_between? h

theorem SourceLine.callsLogger_eq_false {line : SourceLine}
    (h : ¬ "self.log_".toList <+: line.text.toList) : line.callsLogger = false := by
  have hevent : line.text ≠ eventLine := by
    intro heq
    rw [heq] at h
    exact h (List.isPrefixOf_iff_prefix.1 (by decide))
  have hstate : line.text ≠ stateLine := by
    intro heq
    rw [heq] at h
    exact h (List.isPrefixOf_iff_prefix.1 (by decide))
  have hnote : notedAction? line.text = none :=
    Option.eq_none_iff_forall_ne_some.2 fun _ hnoted => h (isPrefix_of_notedAction? hnoted)
  simp [SourceLine.callsLogger, hevent, hstate, hnote]

theorem SourceLine.opensLogger_eq_false {line : SourceLine}
    (h : ¬ "fn log_".toList <+: line.text.toList) : line.opensLogger = false := by
  have hheads : loggerHeads.all (fun head => "fn log_".toList.isPrefixOf head.toList) = true := by
    decide
  rw [SourceLine.opensLogger, decide_eq_false_iff_not]
  exact fun hmem => h (List.isPrefixOf_iff_prefix.1 (List.all_eq_true.1 hheads _ hmem))

theorem Unmarked.lacks {text : String} (h : Unmarked text) : Lacks loggerMarks text :=
  fun mark hmark => h mark (List.mem_cons_of_mem _ hmark)

/-- Lines that start otherwise than those of the logger are kept. -/
theorem kept_of_lacks {line : CodeLine} (h : Lacks loggerMarks line.text) : Kept line.read := by
  have hcall := h "self.log_" List.mem_cons_self
  have hfunction := h "fn log_" (List.mem_cons_of_mem _ List.mem_cons_self)
  rw [← line.text_read] at hcall hfunction
  exact ⟨SourceLine.callsLogger_eq_false hcall, SourceLine.opensLogger_eq_false hfunction⟩

theorem SourceLine.callsLogger_of_opensLogger {line : SourceLine} (h : line.opensLogger = true) :
    line.callsLogger = false := by
  have hheads : loggerHeads.all (fun head => !"self.log_".toList.isPrefixOf head.toList) = true := by
    decide
  refine SourceLine.callsLogger_eq_false fun hstarts => ?_
  have hnot := List.all_eq_true.1 hheads _ (of_decide_eq_true h)
  rw [List.isPrefixOf_iff_prefix.2 hstarts] at hnot
  cases hnot

theorem eraseLogging_cons_of_opensLogger {line : SourceLine} (h : line.opensLogger = true)
    (rest : List SourceLine) :
    eraseLogging none (line :: rest) = eraseLogging (some line.indent) rest := by
  rw [eraseLogging, SourceLine.callsLogger_of_opensLogger h, h]
  rfl

theorem eraseLogging_blank {line : SourceLine} (h : line.opensLogger = true)
    (rest : List SourceLine) :
    eraseLogging none (CodeLine.blank.read :: line :: rest) = eraseLogging none (line :: rest) := by
  have hstarts := (startsLogger_cons line rest).trans h
  have hcalls : CodeLine.blank.read.callsLogger = false := rfl
  have hopens : CodeLine.blank.read.opensLogger = false := rfl
  have hempty : CodeLine.blank.read.text = "" := rfl
  rw [eraseLogging, hcalls, hopens, hstarts, hempty]
  rfl

/-- A line that tells the logger of something is left out. -/
theorem eraseLogging_cons_of_callsLogger {line : SourceLine} (h : line.callsLogger = true)
    (rest : List SourceLine) :
    eraseLogging none (line :: rest) = eraseLogging none rest ∧
      startsLogger (line :: rest) = false := by
  refine ⟨by rw [eraseLogging, h]; rfl, ?_⟩
  cases hopens : line.opensLogger with
  | false => exact (startsLogger_cons _ _).trans hopens
  | true =>
    rw [SourceLine.callsLogger_of_opensLogger hopens] at h
    cases h

section Calls

variable (depth : Nat)

theorem bare_eventLine : bare eventLine = eventLine :=
  bare_eq (by decide)

theorem callsLogger_eventLine : (CodeLine.filled depth eventLine).read.callsLogger = true := by
  rw [SourceLine.callsLogger, CodeLine.text_read, CodeLine.text, bare_eventLine]
  rfl

theorem callsLogger_stateLine : (CodeLine.filled depth stateLine).read.callsLogger = true := by
  have hbare : bare stateLine = stateLine := bare_eq (by decide)
  rw [SourceLine.callsLogger, CodeLine.text_read, CodeLine.text, hbare]
  rfl

theorem callsLogger_actionLine (action : String) :
    (CodeLine.filled depth (actionLine action)).read.callsLogger = true := by
  have hwords : actionLine action = "self.log_action(\"" ++ (action ++ "\");") :=
    String.append_assoc
  rw [SourceLine.callsLogger, CodeLine.text_read, CodeLine.text, hwords, bare_append rfl,
    notedAction?, between?_append]
  simp

end Calls

/-! ## Code with logging and without -/

/-- The lines of code as they are read. -/
def readCode (depth : Nat) (codes : List Code) : List SourceLine :=
  (Code.linesAll depth codes).map CodeLine.read

/-- The first code is the second with its logging: events are told in `arms` places, and actions
before their hooks. -/
inductive Logged (actions : List String) : (arms : Nat) → (on off : List Code) → Prop where
  | nil : Logged actions 0 [] []
  /-- code that has nothing to do with the logger -/
  | same {arms : Nat} {code : Code} {on off : List Code} (hcode : AllUnmarked [code])
    (h : Logged actions arms on off) : Logged actions arms (code :: on) (code :: off)
  /-- a block with logging inside it -/
  | block {inside arms : Nat} {head : String} {body body' on off : List Code}
    (hhead : Unmarked (head ++ " \x7b")) (hbody : Logged actions inside body body')
    (h : Logged actions arms on off) :
    Logged actions (inside + arms) (.block head body :: on) (.block head body' :: off)
  /-- the event of an arm -/
  | event {arms : Nat} {on off : List Code} (h : Logged actions arms on off) :
    Logged actions (arms + 1) (.line eventLine :: on) off
  /-- an action, and the call of its hook -/
  | action {arms : Nat} {action : String} {on off : List Code} (haction : action ∈ actions)
    (h : Logged actions arms on off) :
    Logged actions arms (.line (actionLine action) :: .line (hookLine action) :: on)
      (.line (hookLine action) :: off)
  /-- the state that is entered -/
  | state {arms : Nat} {on off : List Code} (h : Logged actions arms on off) :
    Logged actions arms (.line stateLine :: on) off
  /-- a function of the logger, with an empty line before it -/
  | logger {arms : Nat} {code : Code} {on off : List Code} (hcode : [code] ∈ logFunctions)
    (h : Logged actions arms on off) : Logged actions arms (.blank :: code :: on) off

theorem readCode_cons (depth : Nat) (code : Code) (codes : List Code) :
    readCode depth (code :: codes) =
      (code.lines depth).map CodeLine.read ++ readCode depth codes := by
  rw [readCode, Code.linesAll_cons, List.map_append]
  rfl

theorem readCode_line (depth : Nat) (text : String) (codes : List Code) :
    readCode depth (.line text :: codes) =
      (CodeLine.filled depth text).read :: readCode depth codes := by
  rw [readCode_cons, Code.lines]
  rfl

theorem readCode_blank (depth : Nat) (codes : List Code) :
    readCode depth (.blank :: codes) = CodeLine.blank.read :: readCode depth codes := by
  rw [readCode_cons, Code.lines]
  rfl

theorem readCode_block (depth : Nat) (head : String) (body codes : List Code) :
    readCode depth (.block head body :: codes) =
      (CodeLine.filled depth (head ++ " \x7b")).read ::
        (readCode (depth + 1) body ++ (CodeLine.filled depth "\x7d").read :: readCode depth codes) := by
  rw [readCode_cons, Code.lines, List.map_cons, List.map_append, List.cons_append, List.append_assoc]
  rfl

theorem kept_hookLine (depth : Nat) (action : String) :
    Kept (CodeLine.filled depth (hookLine action)).read := by
  refine kept_of_lacks ?_
  unfold CodeLine.text hookLine
  rw [String.append_assoc]
  exact lacks_append rfl _

/-- A function of the logger is left out with the empty line before it. -/
theorem eraseLogging_logger {code : Code} (hcode : [code] ∈ logFunctions) (depth : Nat)
    (rest : List SourceLine) :
    eraseLogging none (CodeLine.blank.read :: ((code.lines depth).map CodeLine.read ++ rest)) =
      eraseLogging none rest := by
  obtain ⟨head, body, rfl, hhead⟩ : ∃ head body, code = .block head body ∧
      head ++ " \x7b" ∈ loggerHeads := by
    simp only [logFunctions, List.mem_cons, List.cons.injEq, and_true, List.not_mem_nil,
      or_false] at hcode
    rcases hcode with rfl | rfl | rfl
    · exact ⟨_, _, rfl, by decide⟩
    · exact ⟨_, _, rfl, by decide⟩
    · exact ⟨_, _, rfl, by decide⟩
  have hplain : ∀ line ∈ (Code.block head body).lines depth, line.read = line.toSource := by
    intro line hline
    refine CodeLine.read_of_plain (inert_machineTail true _ ?_).plain
    have hmem : Code.block head body ∈ machineTail true :=
      List.mem_cons_of_mem _ (mem_spaced_of_mem (List.mem_flatten.2
        ⟨_, List.mem_append_right _ hcode, List.mem_cons_self⟩))
    rw [Code.textsAll_eq_flatMap]
    exact List.mem_flatMap.2 ⟨_, hmem, Code.text_mem_texts hline⟩
  have hopens : (SourceLine.mk (4 * depth) (head ++ " \x7b")).opensLogger = true :=
    decide_eq_true hhead
  have hinside := takeWhile_isInside_linesAll depth body (show "\x7d" ≠ "" by decide) rest
  rw [List.map_congr_left hplain, Code.map_toSource_block, eraseLogging_blank hopens,
    eraseLogging_cons_of_opensLogger hopens, eraseLogging_skipping]
  -- what is not inside the function starts with its closing brace
  have hsplit := List.takeWhile_append_dropWhile (p := (·.isInside (4 * depth)))
    (l := (Code.linesAll (depth + 1) body).map CodeLine.toSource ++ ⟨4 * depth, "\x7d"⟩ :: rest)
  rw [hinside] at hsplit
  rw [List.append_cancel_left hsplit, List.tail_cons]

/-- **The code without logging** is read from the text of the code with logging by leaving out what
belongs to the logger. -/
theorem Logged.eraseLogging_eq {actions : List String} {arms : Nat} {on off : List Code}
    (h : Logged actions arms on off) (depth : Nat) {rest : List SourceLine}
    (hrest : startsLogger rest = false) :
    eraseLogging none (readCode depth on ++ rest) = readCode depth off ++ eraseLogging none rest ∧
      startsLogger (readCode depth on ++ rest) = false := by
  induction h generalizing depth rest with
  | nil => exact ⟨rfl, hrest⟩
  | @same arms code on off hcode _ ih =>
    obtain ⟨herase, hstarts⟩ := ih depth hrest
    have hkept : ∀ line ∈ (code.lines depth).map CodeLine.read, Kept line := by
      intro line hline
      obtain ⟨written, hwritten, rfl⟩ := List.mem_map.1 hline
      exact kept_of_lacks (hcode _ (by simpa using Code.text_mem_texts hwritten)).lacks
    rw [readCode_cons, readCode_cons, List.append_assoc, List.append_assoc]
    exact ⟨by rw [eraseLogging_append hkept hstarts, herase], startsLogger_append hkept hstarts⟩
  | @block inside arms head body body' on off hhead _ _ ihbody ih =>
    obtain ⟨herase, hstarts⟩ := ih depth hrest
    have hfirst : Kept (CodeLine.filled depth (head ++ " \x7b")).read := kept_of_lacks hhead.lacks
    have hlast : Kept (CodeLine.filled depth "\x7d").read :=
      kept_of_lacks (lacks_of_looksLacking rfl)
    -- the closing brace is what follows the body
    have hclosed : startsLogger ((CodeLine.filled depth "\x7d").read :: (readCode depth on ++ rest)) =
        false := (startsLogger_cons _ _).trans hlast.2
    obtain ⟨hinside, hbody⟩ := ihbody (depth + 1) hclosed
    rw [readCode_block, readCode_block, List.cons_append, List.append_assoc, List.cons_append]
    refine ⟨?_, (startsLogger_cons _ _).trans hfirst.2⟩
    rw [eraseLogging_cons_of_kept hfirst hbody, hinside, eraseLogging_cons_of_kept hlast hstarts,
      herase, List.cons_append, List.append_assoc, List.cons_append]
  | event _ ih =>
    obtain ⟨hcall, hstarts⟩ := eraseLogging_cons_of_callsLogger (callsLogger_eventLine depth) _
    rw [readCode_line, List.cons_append]
    exact ⟨hcall.trans (ih depth hrest).1, hstarts⟩
  | @action arms action on off haction _ ih =>
    obtain ⟨herase, hrest⟩ := ih depth hrest
    obtain ⟨hcall, hstarts⟩ := eraseLogging_cons_of_callsLogger (callsLogger_actionLine depth action) _
    rw [readCode_line, readCode_line, readCode_line, List.cons_append, List.cons_append]
    refine ⟨hcall.trans ?_, hstarts⟩
    rw [eraseLogging_cons_of_kept (kept_hookLine depth action) hrest, herase, List.cons_append]
  | state _ ih =>
    obtain ⟨hcall, hstarts⟩ := eraseLogging_cons_of_callsLogger (callsLogger_stateLine depth) _
    rw [readCode_line, List.cons_append]
    exact ⟨hcall.trans (ih depth hrest).1, hstarts⟩
  | logger hcode _ ih =>
    rw [readCode_blank, readCode_cons, List.cons_append, List.append_assoc]
    exact ⟨(eraseLogging_logger hcode depth _).trans (ih depth hrest).1, rfl⟩

/-! ## What the logger is told -/

/-- The lines tell the logger of an action directly before they call its hook, and nowhere else. -/
inductive Noted (actions : List String) : (lines : List String) → Prop where
  | nil : Noted actions []
  | other {words : String} {rest : List String} (hnote : notedAction? words = none)
    (hhook : calledHook? words = none) (h : Noted actions rest) : Noted actions (words :: rest)
  | pair {action : String} {rest : List String} (haction : action ∈ actions)
    (h : Noted actions rest) : Noted actions (actionLine action :: hookLine action :: rest)

theorem Noted.append {actions first second : List String} (h : Noted actions first)
    (h' : Noted actions second) : Noted actions (first ++ second) := by
  induction h with
  | nil => exact h'
  | other hnote hhook _ ih => exact .other hnote hhook ih
  | pair haction _ ih => exact .pair haction ih

/-- The line tells the logger of no event and no action, and calls no hook of an action. -/
def Silent (text : String) : Prop :=
  Lacks [eventLine, "self.log_action(\"", hookMark] text

theorem Unmarked.silent {text : String} (h : Unmarked text) : Silent text := by
  have hlonger : ∀ more : String, ¬ ("self.log_" ++ more).toList <+: (bare text).toList := by
    intro more hstarts
    rw [String.toList_append] at hstarts
    exact h "self.log_" (List.mem_cons_of_mem _ List.mem_cons_self)
      ((List.prefix_append _ _).trans hstarts)
  intro mark hmark
  simp only [List.mem_cons, List.not_mem_nil, or_false] at hmark
  rcases hmark with rfl | rfl | rfl
  · exact hlonger "event(event);"
  · exact hlonger "action(\""
  · exact h hookMark List.mem_cons_self

theorem Lacks.ne {marks : List String} {text mark : String} (h : Lacks marks text)
    (hmark : mark ∈ marks) : bare text ≠ mark := by
  intro heq
  have hstarts := h mark hmark
  rw [heq] at hstarts
  exact hstarts (List.prefix_refl _)

/-- Words with a fixed start that is not that of a mark are bare and are not the mark. -/
theorem bare_append_ne {mark front : String} (h : looksLacking [mark] front = true)
    (back : String) : bare (front ++ back) = front ++ back ∧ front ++ back ≠ mark := by
  have hbare := bare_append (Bool.and_eq_true_iff.1 h).1 back
  exact ⟨hbare, hbare ▸ (lacks_append h back).ne List.mem_cons_self⟩

theorem Silent.noted {text : String} (h : Silent text) (actions : List String) :
    Noted actions [bare text] := by
  refine .other ?_ ?_ .nil
  · refine Option.eq_none_iff_forall_ne_some.2 fun action haction => ?_
    have hwords : "self.log_action(\"" = "self.log_action(\"" ++ "" := by decide
    rw [notedAction?, hwords] at haction
    exact h "self.log_action(\"" (by simp) (isPrefix_of_between? haction)
  · refine Option.eq_none_iff_forall_ne_some.2 fun hook hhook => ?_
    exact h hookMark (by simp) (isPrefix_of_calledHook? hhook)

/-- The lines tell the logger of an event in `arms` places, and of actions before their hooks. -/
def Tells (actions : List String) (arms : Nat) (texts : List String) : Prop :=
  Noted actions (texts.map bare) ∧ (texts.map bare).count eventLine = arms

namespace Tells

variable {actions : List String}

theorem append {m n : Nat} {first second : List String} (h : Tells actions m first)
    (h' : Tells actions n second) : Tells actions (m + n) (first ++ second) := by
  unfold Tells
  rw [List.map_append, List.count_append, h.2, h'.2]
  exact ⟨h.1.append h'.1, rfl⟩

theorem silent {texts : List String} (h : ∀ text ∈ texts, Silent text) :
    Tells actions 0 texts := by
  induction texts with
  | nil => exact ⟨.nil, rfl⟩
  | cons text texts ih =>
    have hfirst := h text List.mem_cons_self
    have hone : Tells actions 0 [text] :=
      ⟨hfirst.noted actions, List.count_eq_zero.2 fun hmem =>
        Lacks.ne hfirst List.mem_cons_self (List.mem_singleton.1 hmem).symm⟩
    exact hone.append (ih fun next hnext => h next (List.mem_cons_of_mem _ hnext))

theorem event : Tells actions 1 [eventLine] := by
  unfold Tells
  rw [List.map_singleton, bare_eventLine]
  exact ⟨.other rfl rfl .nil, List.count_singleton_self⟩

theorem action {action : String} (haction : action ∈ actions) :
    Tells actions 0 [actionLine action, hookLine action] := by
  have hnote : bare (actionLine action) = actionLine action ∧ actionLine action ≠ eventLine := by
    unfold actionLine
    rw [String.append_assoc]
    exact bare_append_ne rfl _
  have hhook : bare (hookLine action) = hookLine action ∧ hookLine action ≠ eventLine := by
    unfold hookLine
    rw [String.append_assoc]
    exact bare_append_ne rfl _
  unfold Tells
  rw [List.map_cons, List.map_singleton, hnote.1, hhook.1]
  refine ⟨.pair haction .nil, ?_⟩
  rw [List.count_cons_of_ne hnote.2, List.count_cons_of_ne hhook.2, List.count_nil]

end Tells

/-- The words of the functions of the logger tell it of nothing by themselves. -/
theorem silent_logger {code : Code} (hcode : [code] ∈ logFunctions) :
    ∀ text ∈ code.texts, Silent text := by
  have hcheck : (Code.textsAll logFunctions.flatten).all
      (looksLacking [eventLine, "self.log_action(\"", hookMark]) = true := rfl
  intro text htext
  have hmem : text ∈ Code.textsAll logFunctions.flatten := by
    rw [Code.textsAll_eq_flatMap]
    exact List.mem_flatMap.2 ⟨code, List.mem_flatten.2 ⟨_, hcode, List.mem_cons_self⟩, htext⟩
  exact lacks_of_looksLacking (List.all_eq_true.1 hcheck text hmem)

/-- **What the code with logging tells** is an event for each arm, and each action before its
hook. -/
theorem Logged.tells {actions : List String} {arms : Nat} {on off : List Code}
    (h : Logged actions arms on off) : Tells actions arms (Code.textsAll on) := by
  induction h with
  | nil => exact .silent fun _ htext => absurd htext (by simp)
  | @same arms code on off hcode _ ih =>
    have hsilent : Tells actions 0 code.texts :=
      .silent fun text htext => (hcode text (by simpa using htext)).silent
    rw [← Nat.zero_add arms, Code.textsAll_cons]
    exact hsilent.append ih
  | @block inside arms head body body' on off hhead _ _ ihbody ih =>
    have hfirst : Tells actions 0 [head ++ " \x7b"] :=
      .silent fun text htext => List.mem_singleton.1 htext ▸ hhead.silent
    have hlast : Tells actions 0 ["\x7d"] :=
      .silent fun text htext => List.mem_singleton.1 htext ▸ lacks_of_looksLacking rfl
    have hblock := hfirst.append (ihbody.append hlast)
    rw [Nat.zero_add, Nat.add_zero] at hblock
    rw [Code.textsAll_cons, Code.texts]
    exact hblock.append ih
  | event _ ih =>
    rw [Code.textsAll_cons, Code.texts, Nat.add_comm]
    exact Tells.event.append ih
  | @action arms action on off haction _ ih =>
    rw [← Nat.zero_add arms, Code.textsAll_cons, Code.textsAll_cons, Code.texts, Code.texts]
    exact (Tells.action haction).append ih
  | @state arms on off _ ih =>
    have hsilent : Tells actions 0 [stateLine] :=
      .silent fun text htext => List.mem_singleton.1 htext ▸ lacks_of_looksLacking rfl
    rw [← Nat.zero_add arms, Code.textsAll_cons, Code.texts]
    exact hsilent.append ih
  | @logger arms code on off hcode _ ih =>
    have hblank : Tells actions 0 [""] :=
      .silent fun text htext => List.mem_singleton.1 htext ▸ unmarked_empty.silent
    have hfunction : Tells actions 0 code.texts := .silent (silent_logger hcode)
    rw [← Nat.zero_add arms, ← Nat.zero_add arms, Code.textsAll_cons, Code.textsAll_cons, Code.texts]
    exact hblank.append (hfunction.append ih)

/-! ## Texts of code -/

theorem readLines_linesAll {codes : List Code}
    (hend : ∀ text ∈ Code.textsAll codes, '\n' ∉ text.toList) :
    readLines (renderLines (Code.linesAll 0 codes)) = readCode 0 codes := by
  refine readLines_renderLines_of_not_mem fun line hline => hend _ ?_
  rw [← Code.map_text_linesAll 0]
  exact List.mem_map_of_mem hline

section Texts

variable {actions : List String} {arms : Nat} {on off : List Code}
  (h : Logged actions arms on off) (hend : ∀ text ∈ Code.textsAll on, '\n' ∉ text.toList)

include h hend

theorem Logged.withoutLogging_eq :
    withoutLogging (renderLines (Code.linesAll 0 on)) = renderLines (Code.linesAll 0 off) := by
  have herase := (h.eraseLogging_eq 0 (show startsLogger [] = false from rfl)).1
  rw [List.append_nil, eraseLogging, List.append_nil] at herase
  rw [withoutLogging, readLines_linesAll hend, herase, readCode, writeLines_map_read]

theorem Logged.readLines_tells :
    Noted actions ((readLines (renderLines (Code.linesAll 0 on))).map (·.text)) ∧
      ((readLines (renderLines (Code.linesAll 0 on))).map (·.text)).count eventLine = arms := by
  have hwords : (readCode 0 on).map (·.text) = (Code.textsAll on).map bare := by
    rw [readCode, List.map_map, ← Code.map_text_linesAll 0, List.map_map]
    exact List.map_congr_left fun line _ => line.text_read
  rw [readLines_linesAll hend, hwords]
  exact h.tells

end Texts

end Statechart.Source
