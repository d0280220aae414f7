import Statechart.Proofs.Command.Report
import Statechart.Proofs.Text.Lines
set_option autoImplicit false

/-!
# Commands: what has been written when they fail

A command reads its chart before anything else and makes all of its output before it writes, unless
it runs a machine: then every step is written as it is taken.  So a machine that refuses an event is
the only failure that leaves something written, and that is complete lines, the line for the start
among them (`Chart.trace_ne_nil`).
-/

namespace Statechart

/-! ## Complete lines -/

/-- The text is one complete line or several. -/
def IsLines (text : String) : Prop :=
  ∃ lines : List String, lines ≠ [] ∧ (∀ line ∈ lines, '\n' ∉ line.toList) ∧ text = linesText lines

theorem toList_linesText (lines : List String) :
    (linesText lines).toList = lines.flatMap fun line => line.toList ++ ['\n'] := by
  simp [linesText, String.toList_join, List.flatMap_map]

/-- A text that ends with a line end is complete lines. -/
theorem isLines_of_toList {text : String} {before : List Char}
    (h : text.toList = before ++ ['\n']) : IsLines text := by
  refine ⟨(Text.lines (before ++ ['\n'])).map String.ofList, ?_, ?_, ?_⟩
  · exact fun hnil => Text.lines_ne_nil (by simp) (List.map_eq_nil_iff.1 hnil)
  · intro line hline
    obtain ⟨chars, hchars, rfl⟩ := List.mem_map.1 hline
    rw [String.toList_ofList]
    exact Text.not_mem_of_mem_lines hchars
  · apply String.toList_injective
    rw [toList_linesText, List.flatMap_map, h]
    simp only [String.toList_ofList]
    exact (Text.flatMap_lines before).symm

/-- What is written line by line is complete lines, also where line ends stand in the lines. -/
theorem isLines_linesText {lines : List String} (h : lines ≠ []) : IsLines (linesText lines) := by
  obtain ⟨before, last, rfl⟩ : ∃ before last, lines = before ++ [last] :=
    ⟨_, _, (List.dropLast_concat_getLast h).symm⟩
  have hend : (linesText (before ++ [last])).toList =
      (before.flatMap fun line => line.toList ++ ['\n']) ++ last.toList ++ ['\n'] := by
    rw [toList_linesText, List.flatMap_append, List.flatMap_singleton, List.append_assoc]
  exact isLines_of_toList hend

/-- The line for the start is always written. -/
theorem Chart.trace_ne_nil {c : Chart} (hc : c.WellFormed) (events : List String) :
    (c.trace events).1 ≠ [] := by
  obtain ⟨run⟩ := c.nonempty_longestRun events
  rw [Chart.trace_eq hc run]
  exact List.cons_ne_nil _ _

/-! ## Failures -/

/-- The failure is one of reading the chart. -/
inductive Failure.IsUnread : Failure → Prop where
  | file (fault : FileFault) : IsUnread (.error (.file fault))
  | parse (rejection : Rejection) : IsUnread (.error (.parse rejection))

namespace Command

/-- The failures that a command can end with when it has its chart. -/
inductive MayFail : Command → Failure → Prop where
  | draw : MayFail .draw .lineTooWide
  | generate (className? : Option String) (fault : Source.NameFault) :
    MayFail (.generate className?) (.error (.generate fault))
  | run (events : List String) (cause : MachineError) :
    MayFail (.run events) (.error (.state cause))

theorem MayFail.not_isUnread {command : Command} {failure : Failure} (h : command.MayFail failure) :
    ¬ failure.IsUnread := by
  intro hunread
  cases h <;> cases hunread

/-- **Failures on a chart.**  Nothing has been written, unless a machine refused an event; then
complete lines have been. -/
theorem executeOn_failure (settings : Settings) {c : Chart} (hc : c.WellFormed) {command : Command}
    {failure : Failure} (h : (command.executeOn settings c).failure? = some failure) :
    command.MayFail failure ∧
      ((∃ cause, failure = .error (.state cause)) ∧ IsLines (command.executeOn settings c).output ∨
        (∀ cause, failure ≠ .error (.state cause)) ∧
          (command.executeOn settings c).output = "") := by
  cases command with
  | draw =>
    cases hdrawing : c.dot? settings.graph with
    | some drawing => simp [executeOn, hdrawing, CommandResult.success] at h
    | none =>
      have hresult : executeOn settings c .draw = .failure .lineTooWide := by
        simp only [executeOn, hdrawing]
      rw [hresult] at h ⊢
      obtain rfl := Option.some.inj h
      exact ⟨.draw, .inr ⟨nofun, rfl⟩⟩
  | generate className? =>
    cases hsource : Source.generate ((className?.map c.rename).getD c) settings.source with
    | ok source => simp [executeOn, hsource, CommandResult.success] at h
    | error fault =>
      have hresult : executeOn settings c (.generate className?) =
          .failure (.error (.generate fault)) := by
        simp only [executeOn, hsource]
      rw [hresult] at h ⊢
      obtain rfl := Option.some.inj h
      exact ⟨.generate className? fault, .inr ⟨nofun, rfl⟩⟩
  | check format => cases h
  | run events =>
    obtain ⟨cause, _, rfl⟩ := Option.map_eq_some_iff.1 h
    exact ⟨.run events cause, .inl ⟨⟨cause, rfl⟩, isLines_linesText (c.trace_ne_nil hc events)⟩⟩

/-- A chart that cannot be read is the fault of the file or of its text. -/
theorem isUnread_of_ofFile {content : Except FileFault String} {cause : Error}
    (h : Chart.ofFile content = .error cause) : (Failure.error cause).IsUnread := by
  unfold Chart.ofFile at h
  cases content with
  | error fault =>
    obtain rfl := Except.error.inj h
    exact .file fault
  | ok text =>
    cases hchart : Chart.ofText text with
    | error rejection =>
      simp only [hchart] at h
      obtain rfl := Except.error.inj h
      exact .parse rejection
    | ok chart => simp [hchart] at h

/-- **No partial output on failure**, for whatever was read from the file, all settings and all
commands.  A failure is one of reading the chart exactly if there is none, whatever the command;
else it is one of the command's own.  Nothing has been written then, unless a machine refused an
event, and in that case complete lines have been.  A summary of a chart never fails. -/
theorem failure_leaves_nothing_or_lines (settings : Settings) (content : Except FileFault String)
    (command : Command) :
    (∀ cause, Chart.ofFile content = .error cause →
      command.execute settings content = .failure (.error cause) ∧
        (Failure.error cause).IsUnread) ∧
    (∀ c, Chart.ofFile content = .ok c → ∀ failure,
      (command.execute settings content).failure? = some failure →
        command.MayFail failure ∧ ¬ failure.IsUnread) ∧
    (∀ failure, (command.execute settings content).failure? = some failure →
      ((∀ cause, failure ≠ .error (.state cause)) →
        (command.execute settings content).output = "") ∧
      ((∃ cause, failure = .error (.state cause)) →
        IsLines (command.execute settings content).output)) ∧
    (∀ c format, Chart.ofFile content = .ok c → command = .check format →
      (command.execute settings content).failure? = none) := by
  unfold execute
  cases hfile : Chart.ofFile content with
  | error cause =>
    have hunread := isUnread_of_ofFile hfile
    refine ⟨?_, nofun, ?_, nofun⟩
    · intro cause' hcause
      obtain rfl := Except.error.inj hcause
      exact ⟨rfl, hunread⟩
    · intro failure hfailure
      obtain rfl := Option.some.inj hfailure
      refine ⟨fun _ => rfl, ?_⟩
      rintro ⟨refusal, hrefusal⟩
      rw [hrefusal] at hunread
      cases hunread
  | ok c =>
    have hc := Chart.wellFormed_of_ofFile hfile
    refine ⟨nofun, ?_, ?_, ?_⟩
    · intro c' hc' failure hfailure
      have hmay := (executeOn_failure settings hc hfailure).1
      exact ⟨hmay, hmay.not_isUnread⟩
    · intro failure hfailure
      rcases (executeOn_failure settings hc hfailure).2 with ⟨hstate, hlines⟩ | ⟨hother, hempty⟩
      · refine ⟨fun hother => ?_, fun _ => hlines⟩
        obtain ⟨cause, hcause⟩ := hstate
        exact absurd hcause (hother cause)
      · refine ⟨fun _ => hempty, ?_⟩
        rintro ⟨cause, hcause⟩
        exact absurd hcause (hother cause)
    · rintro _ format _ rfl
      rfl

end Command

end Statechart
