import Statechart.Proofs.Source.Reading
import Statechart.Proofs.Text.Brackets
import Statechart.Source.Emitter
import Statechart.Source.Module
set_option autoImplicit false

/-!
# Source: the writer along a tree of code

Called along a tree of code the writer writes the lines of the code (`Code.run_calls`), and it never
has to stay at depth zero: calls that open and calls that close are nested (`Code.levelAfter?_calls`),
and for such calls the depth is their level (`Writer.depth_run`).
-/

namespace Statechart.Source

open Text (Bracket Nested levelAfter? levelAfter?_append_eq_some levelAfter?_cons)

/-- What a call does to the level of nesting. -/
def Call.bracket : Call → Bracket
  | .line _ => .neither
  | .blank => .neither
  | .opening _ => .opening
  | .closing _ => .closing

namespace Writer

@[simp] theorem run_nil (w : Writer) : w.run [] = w := rfl

theorem run_cons (w : Writer) (call : Call) (calls : List Call) :
    w.run (call :: calls) = (w.call call).run calls := rfl

theorem run_append (w : Writer) (calls calls' : List Call) :
    w.run (calls ++ calls') = (w.run calls).run calls' :=
  List.foldl_append

/-! ## Depth -/

theorem depth_call {w : Writer} {call : Call} {next : Nat}
    (h : call.bracket.level? w.depth = some next) : (w.call call).depth = next := by
  cases call with
  | closing words =>
    -- at depth zero the level would be none
    cases hdepth : w.depth with
    | zero =>
      rw [hdepth] at h
      cases h
    | succ depth =>
      rw [hdepth] at h
      cases h
      exact congrArg (· - 1) hdepth
  | line words => exact Option.some.inj h
  | blank => exact Option.some.inj h
  | opening words => exact Option.some.inj h

/-- The depth is the level of the calls, as long as they have one. -/
theorem depth_run {w : Writer} {calls : List Call} {last : Nat}
    (h : levelAfter? Call.bracket w.depth calls = some last) : (w.run calls).depth = last := by
  induction calls generalizing w with
  | nil => exact Option.some.inj h
  | cons call calls ih =>
    obtain ⟨next, hnext, hlast⟩ := Option.bind_eq_some_iff.1 h
    rw [← depth_call hnext] at hlast
    exact ih hlast

/-- After nested calls the writer is as deep as it was. -/
theorem depth_run_of_nested (w : Writer) {calls : List Call} (h : Nested Call.bracket calls) :
    (w.run calls).depth = w.depth :=
  depth_run (h.levelAfter? w.depth)

/-- Nothing is closed at depth zero by calls that have a level. -/
theorem depth_pos {w : Writer} {before after : List Call} {words : String} {last : Nat}
    (h : levelAfter? Call.bracket w.depth (before ++ .closing words :: after) = some last) :
    0 < (w.run before).depth := by
  obtain ⟨next, hnext, hlast⟩ := levelAfter?_append_eq_some.1 h
  rw [depth_run hnext]
  cases next with
  | zero => cases hlast
  | succ level => exact Nat.succ_pos level

/-- The last line of a block is as deep as its first line. -/
theorem lineFor_closing (w : Writer) {inside : List Call} (h : Nested Call.bracket inside)
    (head words : String) :
    (w.run (.opening head :: inside)).lineFor (.closing words) = .filled w.depth words := by
  have hdepth := (w.call (.opening head)).depth_run_of_nested h
  unfold lineFor
  rw [run_cons, hdepth]
  rfl

end Writer

/-! ## Calls for code -/

mutual

/-- The calls that write a piece of code. -/
def Code.calls : Code → List Call
  | .line text => [.line text]
  | .blank => [.blank]
  | .block head body tail =>
    .opening (head ++ " \x7b") :: (Code.callsAll body ++ [.closing ("\x7d" ++ tail)])

/-- The calls that write pieces of code, one after the other. -/
def Code.callsAll : List Code → List Call
  | [] => []
  | code :: rest => Code.calls code ++ Code.callsAll rest

end

@[simp] theorem Code.callsAll_nil : Code.callsAll [] = [] := by
  rw [Code.callsAll]

theorem Code.callsAll_cons (code : Code) (rest : List Code) :
    Code.callsAll (code :: rest) = code.calls ++ Code.callsAll rest := by
  rw [Code.callsAll]

theorem Code.callsAll_append (first second : List Code) :
    Code.callsAll (first ++ second) = Code.callsAll first ++ Code.callsAll second := by
  induction first with
  | nil => simp
  | cons code first ih =>
    rw [List.cons_append, Code.callsAll_cons, Code.callsAll_cons, ih, List.append_assoc]

theorem Code.callsAll_eq_flatMap (codes : List Code) :
    Code.callsAll codes = codes.flatMap Code.calls := by
  induction codes with
  | nil => simp
  | cons code codes ih => rw [Code.callsAll_cons, ih, List.flatMap_cons]

mutual

/-- The calls for code are nested. -/
theorem Code.levelAfter?_calls (level : Nat) : ∀ code : Code,
    levelAfter? Call.bracket level code.calls = some level
  | .line text => by
    rw [Code.calls]
    rfl
  | .blank => by
    rw [Code.calls]
    rfl
  | .block head body tail => by
    have hbody := Code.levelAfter?_callsAll (level + 1) body
    rw [Code.calls]
    exact levelAfter?_append_eq_some.2 ⟨level + 1, hbody, rfl⟩

theorem Code.levelAfter?_callsAll (level : Nat) : ∀ codes : List Code,
    levelAfter? Call.bracket level (Code.callsAll codes) = some level
  | [] => by
    rw [Code.callsAll]
    rfl
  | code :: rest => by
    rw [Code.callsAll]
    exact levelAfter?_append_eq_some.2
      ⟨level, Code.levelAfter?_calls level code, Code.levelAfter?_callsAll level rest⟩

end

mutual

/-- The writer writes the lines of code, and ends where it was. -/
theorem Code.run_calls (w : Writer) : ∀ code : Code,
    w.run code.calls = { text := w.text ++ renderLines (code.lines w.depth), depth := w.depth }
  | .line text => by
    rw [Code.calls, Code.lines]
    rfl
  | .blank => by
    rw [Code.calls, Code.lines]
    rfl
  | .block head body tail => by
    have hlines : ∀ first last : CodeLine, ∀ inside : List CodeLine,
        w.text ++ renderLines [first] ++ renderLines inside ++ renderLines [last] =
          w.text ++ renderLines (first :: (inside ++ [last])) := by
      intro first last inside
      rw [String.append_assoc, String.append_assoc, ← renderLines_append, ← renderLines_append]
      rfl
    rw [Code.calls, Writer.run_cons, Writer.run_append, Code.run_callsAll _ body, Code.lines]
    exact congrArg (Writer.mk · w.depth) (hlines _ _ _)

theorem Code.run_callsAll (w : Writer) : ∀ codes : List Code,
    w.run (Code.callsAll codes) =
      { text := w.text ++ renderLines (Code.linesAll w.depth codes), depth := w.depth }
  | [] => by
    rw [Code.callsAll, Code.linesAll]
    exact congrArg (Writer.mk · w.depth) String.append_empty.symm
  | code :: rest => by
    rw [Code.callsAll, Code.linesAll, Writer.run_append, Code.run_calls w code,
      Code.run_callsAll _ rest, renderLines_append, String.append_assoc]

end

/-! ## Calls for the source of a chart -/

/-- The calls that write the source of a chart. -/
def sourceCalls (c : Chart) (options : SourceOptions) : List Call :=
  (if options.header then [.line (headerLine c), .blank] else [])
    ++ (nest (packages c options) (moduleCode c)).calls

/-- The writer writes the source, and nothing is open in the end. -/
theorem write_sourceCalls (c : Chart) (options : SourceOptions) :
    write (sourceCalls c options) =
      { text := renderLines (sourceLines c options), depth := 0 } := by
  have hbanner : write (if options.header then [.line (headerLine c), .blank] else []) =
      { text := renderLines (if options.header then [.filled 0 (headerLine c), .blank] else [])
        depth := 0 } := by
    cases options.header with
    | false => rfl
    | true =>
      have htext : "" ++ renderLines [.filled 0 (headerLine c)] ++ renderLines [.blank] =
          renderLines [.filled 0 (headerLine c), .blank] := by
        rw [String.empty_append, ← renderLines_append]
        rfl
      exact congrArg (Writer.mk · 0) htext
  unfold write at hbanner ⊢
  rw [sourceCalls, Writer.run_append, hbanner, Code.run_calls, sourceLines, renderLines_append]

theorem nested_sourceCalls (c : Chart) (options : SourceOptions) :
    Nested Call.bracket (sourceCalls c options) := by
  refine Nested.append ?_ (Text.nested_iff.2 (Code.levelAfter?_calls 0 _))
  cases options.header with
  | false => exact Text.nested_iff.2 rfl
  | true => exact Text.nested_iff.2 rfl

end Statechart.Source
