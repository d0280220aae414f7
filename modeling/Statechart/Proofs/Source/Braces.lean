import Statechart.Proofs.Source.Clashes
import Statechart.Proofs.Source.Emission
import Statechart.Proofs.Source.SnakeCase
set_option autoImplicit false

/-!
# Source: braces

The braces of generated source are nested, and the writer is always as deep as there are braces
open.  For this the words of each call have to do to the braces what the call does to the depth
(`Call.Tidy`): a line inside a block closes what it opens, the first line of a block leaves one
brace open, and the last line closes one.  Names have no braces, and fixed words are checked by
their bytes.

A block is then closed where it was opened: its last line is indented like its first.
-/

namespace Statechart.Source

open Text (Bracket Nested levelAfter? levelAfter?_append_eq_some levelAfter?_cons nested_iff)

/-! ## Words -/

/-- What a character does to the nesting of braces. -/
def brace (ch : Char) : Bracket :=
  if ch = '\x7b' then .opening else if ch = '\x7d' then .closing else .neither

/-- The braces of a text are nested. -/
def NestedText (text : String) : Prop :=
  Nested brace text.toList

theorem NestedText.append {front back : String} (hfront : NestedText front)
    (hback : NestedText back) : NestedText (front ++ back) := by
  unfold NestedText
  rw [String.toList_append]
  exact Nested.append hfront hback

theorem nestedText_intercalate {separator : String} {texts : List String}
    (hseparator : NestedText separator) (h : ∀ text ∈ texts, NestedText text) :
    NestedText (String.intercalate separator texts) := by
  induction texts with
  | nil => exact nested_iff.2 rfl
  | cons text texts ih =>
    have htext := h text List.mem_cons_self
    cases texts with
    | nil => rwa [String.intercalate_singleton]
    | cons next texts =>
      rw [String.intercalate_cons_cons]
      exact (htext.append hseparator).append
        (ih fun other hother => h other (List.mem_cons_of_mem _ hother))

theorem brace_of_isIdentifierPart {ch : Char} (h : isIdentifierPart ch = true) :
    brace ch = .neither := by
  have hopening : ch ≠ '\x7b' := by
    rintro rfl
    exact absurd h (by decide)
  have hclosing : ch ≠ '\x7d' := by
    rintro rfl
    exact absurd h (by decide)
  rw [brace, if_neg hopening, if_neg hclosing]

theorem nestedText_of_isIdentifierPart {text : String}
    (h : ∀ ch ∈ text.toList, isIdentifierPart ch = true) : NestedText text :=
  Text.nested_of_neither fun ch hch => brace_of_isIdentifierPart (h ch hch)

theorem IsIdentifier.nestedText {name : String} (h : IsIdentifier name) : NestedText name :=
  nestedText_of_isIdentifierPart h.isIdentifierPart

theorem nestedText_toString (n : Nat) : NestedText (toString n) :=
  nestedText_of_isIdentifierPart fun _ hch =>
    Bool.or_eq_true_iff.2 (.inl (Bool.or_eq_true_iff.2 (.inr (isDigit_of_mem_toString hch))))

/-! ## Fixed words -/

/-- What a byte does to the nesting of braces. -/
def braceByte (byte : UInt8) : Bracket :=
  if byte = 123 then .opening else if byte = 125 then .closing else .neither

theorem braceByte_of_high {byte : UInt8} (h : 128 ≤ byte.toNat) : braceByte byte = .neither := by
  have hopening : byte ≠ 123 := by
    rintro rfl
    exact absurd h (by decide)
  have hclosing : byte ≠ 125 := by
    rintro rfl
    exact absurd h (by decide)
  rw [braceByte, if_neg hopening, if_neg hclosing]

/-- The byte of an ASCII character does what the character does. -/
theorem braceByte_ofNat {ch : Char} (h : ch.val.toNat ≤ 127) :
    braceByte (UInt8.ofNat ch.val.toNat) = brace ch := by
  have hbyte : ∀ other : Char, other.val.toNat ≤ 127 →
      (UInt8.ofNat ch.val.toNat = UInt8.ofNat other.val.toNat ↔ ch = other) := by
    intro other hother
    refine ⟨fun heq => ?_, fun heq => by rw [heq]⟩
    have hnat := congrArg UInt8.toNat heq
    rw [UInt8.toNat_ofNat', UInt8.toNat_ofNat', Nat.mod_eq_of_lt (by omega),
      Nat.mod_eq_of_lt (by omega)] at hnat
    exact Char.ext (UInt32.toNat_inj.1 hnat)
  have hopening := hbyte '\x7b' (by decide)
  have hclosing := hbyte '\x7d' (by decide)
  unfold braceByte brace
  simp only [← hopening, ← hclosing]
  rfl

/-- The bytes of a character do together what the character does. -/
theorem levelAfter?_utf8EncodeChar (level : Nat) (ch : Char) :
    levelAfter? braceByte level (String.utf8EncodeChar ch) = (brace ch).level? level := by
  by_cases hascii : ch.val.toNat ≤ 127
  · rw [String.utf8EncodeChar, if_pos hascii, Text.levelAfter?_singleton, braceByte_ofNat hascii]
  · have hbytes : Nested braceByte (String.utf8EncodeChar ch) := Text.nested_of_neither
      fun byte hbyte => braceByte_of_high (high_of_mem_utf8EncodeChar hascii byte hbyte)
    have hne : ∀ other : Char, other.val.toNat ≤ 127 → ch ≠ other := by
      rintro other hother rfl
      exact hascii hother
    have hch : brace ch = .neither := by
      rw [brace, if_neg (hne _ (by decide)), if_neg (hne _ (by decide))]
    rw [hbytes.levelAfter? level, hch]
    rfl

theorem levelAfter?_bytesOf (level : Nat) (text : String) :
    levelAfter? braceByte level (bytesOf text) = levelAfter? brace level text.toList := by
  rw [bytesOf_eq]
  induction text.toList generalizing level with
  | nil => rfl
  | cons ch chars ih =>
    rw [List.flatMap_cons, Text.levelAfter?_append, levelAfter?_utf8EncodeChar, levelAfter?_cons]
    exact Option.bind_congr fun next _ => ih next

/-- Whether the braces among bytes are nested. -/
def looksNested (text : String) : Bool :=
  levelAfter? braceByte 0 (bytesOf text) = some 0

theorem NestedText.fixed {text : String} (h : looksNested text = true) : NestedText text := by
  have hbytes := of_decide_eq_true h
  rw [levelAfter?_bytesOf] at hbytes
  exact nested_iff.2 hbytes

/-! ## Calls -/

/-- The words of a call do to the braces what the call does to the depth, and the first and last
lines of blocks are read as they are written. -/
def Call.Tidy : Call → Prop
  | .line words => NestedText words
  | .blank => True
  | .opening words => Plain words ∧ ∃ head, words = head ++ " \x7b" ∧ NestedText head
  | .closing words => Plain words ∧ ∃ tail, words = "\x7d" ++ tail ∧ NestedText tail

/-- The blanks in front of a line have no braces. -/
theorem levelAfter?_render (level : Nat) (line : CodeLine) :
    levelAfter? brace level line.render.toList = levelAfter? brace level line.text.toList := by
  obtain ⟨n, hrender⟩ := line.toList_render
  have hblanks : Nested brace (List.replicate n ' ') := Text.nested_of_neither fun ch hch => by
    rw [List.eq_of_mem_replicate hch]
    rfl
  rw [hrender, Text.levelAfter?_append, hblanks.levelAfter? level]
  rfl

/-- The braces of the words of a tidy call lead to the depth that the call leads to. -/
theorem Call.Tidy.levelAfter? {call : Call} (h : call.Tidy) {w : Writer} {next : Nat}
    (hnext : call.bracket.level? w.depth = some next) :
    Text.levelAfter? brace w.depth (w.lineFor call).text.toList = some next := by
  cases call with
  | line words =>
    cases hnext
    exact Nested.levelAfter? h _
  | blank => exact hnext
  | opening words =>
    obtain ⟨-, head, rfl, hhead⟩ := h
    cases hnext
    have hwords : (w.lineFor (.opening (head ++ " \x7b"))).text = head ++ " \x7b" := rfl
    rw [hwords, String.toList_append]
    exact levelAfter?_append_eq_some.2 ⟨w.depth, Nested.levelAfter? hhead _, rfl⟩
  | closing words =>
    obtain ⟨-, tail, rfl, htail⟩ := h
    have hwords : (w.lineFor (.closing ("\x7d" ++ tail))).text = "\x7d" ++ tail := rfl
    rw [hwords, String.toList_append]
    have hbrace : Text.levelAfter? brace w.depth "\x7d".toList = some next :=
      (Text.levelAfter?_singleton _ _).trans hnext
    exact levelAfter?_append_eq_some.2 ⟨next, hbrace, Nested.levelAfter? htail _⟩

/-- As far as the writer has come it is as deep as there are braces open. -/
theorem Writer.levelAfter?_run {calls : List Call} (htidy : ∀ call ∈ calls, call.Tidy) {w : Writer}
    {last : Nat} (hcalls : levelAfter? Call.bracket w.depth calls = some last)
    (hw : levelAfter? brace 0 w.text.toList = some w.depth) :
    levelAfter? brace 0 (w.run calls).text.toList = some last := by
  induction calls generalizing w with
  | nil => exact hw.trans hcalls
  | cons call calls ih =>
    obtain ⟨next, hnext, hlast⟩ := Option.bind_eq_some_iff.1 hcalls
    have hline : levelAfter? brace w.depth (renderLines [w.lineFor call]).toList = some next := by
      have hwords := (htidy call List.mem_cons_self).levelAfter? hnext
      rw [← levelAfter?_render] at hwords
      rw [toList_renderLines_cons]
      exact levelAfter?_append_eq_some.2 ⟨next, hwords, rfl⟩
    have hdepth := Writer.depth_call hnext
    refine ih (fun other hother => htidy other (List.mem_cons_of_mem _ hother)) (hdepth ▸ hlast) ?_
    rw [hdepth, Writer.call, String.toList_append]
    exact levelAfter?_append_eq_some.2 ⟨w.depth, hw, hline⟩

/-! ## Code -/

/-- All calls for the code are tidy. -/
def AllTidy (codes : List Code) : Prop :=
  ∀ call ∈ Code.callsAll codes, call.Tidy

mutual

/-- Whether fixed code is tidy. -/
def Code.looksTidy : Code → Bool
  | .line words => looksNested words
  | .blank => true
  | .block head body tail =>
    looksPlain (head ++ " \x7b") && looksNested head && looksPlain ("\x7d" ++ tail)
      && looksNested tail && Code.looksTidyAll body

/-- Whether all pieces of fixed code are tidy. -/
def Code.looksTidyAll : List Code → Bool
  | [] => true
  | code :: rest => Code.looksTidy code && Code.looksTidyAll rest

end

namespace AllTidy

variable {codes codes' : List Code}

theorem nil : AllTidy [] := fun _ hcall => absurd hcall (by simp)

theorem append (h : AllTidy codes) (h' : AllTidy codes') : AllTidy (codes ++ codes') := by
  intro call hcall
  rw [Code.callsAll_append, List.mem_append] at hcall
  exact hcall.elim (h call) (h' call)

theorem cons {code : Code} (h : AllTidy [code]) (hrest : AllTidy codes) : AllTidy (code :: codes) :=
  append h hrest

theorem singleton {code : Code} (h : ∀ call ∈ code.calls, call.Tidy) : AllTidy [code] := by
  intro call hcall
  rw [Code.callsAll_cons, Code.callsAll_nil, List.append_nil] at hcall
  exact h call hcall

theorem line {words : String} (h : NestedText words) : AllTidy [.line words] := by
  refine singleton fun call hcall => ?_
  rw [Code.calls, List.mem_singleton] at hcall
  exact hcall ▸ h

theorem blank : AllTidy [.blank] := by
  refine singleton fun call hcall => ?_
  rw [Code.calls, List.mem_singleton] at hcall
  exact hcall ▸ trivial

theorem lines {α : Type} {xs : List α} {f : α → String} (h : ∀ x ∈ xs, NestedText (f x)) :
    AllTidy (xs.map fun x => .line (f x)) := by
  induction xs with
  | nil => exact nil
  | cons x xs ih =>
    exact cons (line (h x List.mem_cons_self)) (ih fun y hy => h y (List.mem_cons_of_mem _ hy))

/-- A block is tidy if its first and last words are, and its body is. -/
theorem enclose {head tail : String} (hplain : Plain (head ++ " \x7b")) (hhead : NestedText head)
    (hplain' : Plain ("\x7d" ++ tail)) (htail : NestedText tail) (h : AllTidy codes) :
    AllTidy [.block head codes tail] := by
  refine singleton fun call hcall => ?_
  rw [Code.calls, List.mem_cons, List.mem_append, List.mem_singleton] at hcall
  rcases hcall with rfl | hcall | rfl
  · exact ⟨hplain, head, rfl, hhead⟩
  · exact h call hcall
  · exact ⟨hplain', tail, rfl, htail⟩

theorem block {head : String} (hplain : Plain (head ++ " \x7b")) (hhead : NestedText head)
    (h : AllTidy codes) : AllTidy [.block head codes] :=
  enclose hplain hhead (by decide) (nested_iff.2 rfl) h

theorem spaced {groups : List (List Code)} (h : AllTidy groups.flatten) :
    AllTidy (Source.spaced groups) := by
  intro call hcall
  rw [Code.callsAll_eq_flatMap] at hcall
  obtain ⟨code, hcode, hcall⟩ := List.mem_flatMap.1 hcall
  rcases mem_spaced hcode with rfl | hcode
  · exact blank call (by simpa [Code.callsAll_cons] using hcall)
  · refine h call ?_
    rw [Code.callsAll_eq_flatMap]
    exact List.mem_flatMap.2 ⟨code, hcode, hcall⟩

end AllTidy

mutual

theorem Code.allTidy_of_looksTidy : ∀ code : Code, code.looksTidy = true → AllTidy [code]
  | .line words => fun h => by
    rw [Code.looksTidy] at h
    exact .line (NestedText.fixed h)
  | .blank => fun _ => .blank
  | .block head body tail => fun h => by
    rw [Code.looksTidy] at h
    simp only [Bool.and_eq_true] at h
    obtain ⟨⟨⟨⟨hplain, hhead⟩, hplain'⟩, htail⟩, hbody⟩ := h
    exact .enclose (plain_of_looksPlain hplain) (NestedText.fixed hhead)
      (plain_of_looksPlain hplain') (NestedText.fixed htail)
      (Code.allTidy_of_looksTidyAll body hbody)

theorem Code.allTidy_of_looksTidyAll : ∀ codes : List Code,
    Code.looksTidyAll codes = true → AllTidy codes
  | [] => fun _ => .nil
  | code :: rest => fun h => by
    rw [Code.looksTidyAll, Bool.and_eq_true] at h
    exact .cons (Code.allTidy_of_looksTidy code h.1) (Code.allTidy_of_looksTidyAll rest h.2)

end

/-- Fixed code is checked. -/
theorem AllTidy.fixed {codes : List Code} (h : Code.looksTidyAll codes = true) : AllTidy codes :=
  Code.allTidy_of_looksTidyAll codes h

/-- A block with a fixed first line. -/
theorem AllTidy.headed {head : String} {codes : List Code}
    (hplain : looksPlain (head ++ " \x7b") = true) (hhead : looksNested head = true)
    (h : AllTidy codes) : AllTidy [.block head codes] :=
  .block (plain_of_looksPlain hplain) (.fixed hhead) h

/-! ## The items of a module -/

/-- The first line of a block that starts with fixed words. -/
theorem AllTidy.named {front back : String} {codes : List Code}
    (hplain : looksPlain front = true) (hfront : looksNested front = true)
    (hline : '\n' ∉ back.toList) (hback : NestedText back) (h : AllTidy codes) :
    AllTidy [.block (front ++ back) codes] := by
  have hhead : Plain (front ++ back ++ " \x7b") := by
    rw [String.append_assoc]
    exact plain_append (plain_of_looksPlain hplain) (ne_empty_of_looksPlain hplain)
      (not_mem_append hline (by decide))
  exact .block hhead ((NestedText.fixed hfront).append hback) h

/-- A name between fixed words. -/
theorem IsIdentifier.nestedText_between {name front back : String} (h : IsIdentifier name)
    (hfront : looksNested front = true) (hback : looksNested back = true) :
    NestedText (front ++ name ++ back) :=
  ((NestedText.fixed hfront).append h.nestedText).append (.fixed hback)

section Items

variable {variants : List String} (hvariants : ∀ v ∈ variants, IsIdentifier v) {name : String}
  (hname : IsIdentifier name)

include hvariants hname

theorem allTidy_enumDeclaration {comment : String} (hcomment : NestedText comment) :
    AllTidy (enumDeclaration comment name variants) := by
  have hcomma : NestedText "," := .fixed rfl
  exact .cons (.line hcomment) (.cons (.fixed rfl) (.named rfl rfl hname.not_mem_newline
    hname.nestedText (.lines fun v hv => (hvariants v hv).nestedText.append hcomma)))

theorem nestedText_variantPath {v : String} (hv : v ∈ variants) :
    NestedText (variantPath name v) :=
  (hname.nestedText.append (.fixed rfl)).append (hvariants v hv).nestedText

theorem allTidy_allVariants : AllTidy [allVariants name variants] := by
  have hpaths : ∀ path ∈ variants.map (variantPath name), NestedText path := by
    intro path hpath
    obtain ⟨v, hv, rfl⟩ := List.mem_map.1 hpath
    exact nestedText_variantPath hvariants hname hv
  have hlist : NestedText (String.intercalate ", " (variants.map (variantPath name))) :=
    nestedText_intercalate (.fixed rfl) hpaths
  have hcount : NestedText ("pub const ALL: [" ++ name ++ "; " ++ toString variants.length) :=
    (hname.nestedText_between rfl rfl).append (nestedText_toString _)
  exact .line (((hcount.append (.fixed rfl)).append hlist).append (.fixed rfl))

theorem allTidy_nameFunction : AllTidy [nameFunction name variants] := by
  have harm : ∀ v ∈ variants, NestedText (variantPath name v ++ " => \"" ++ v ++ "\",") := by
    intro v hv
    exact (((nestedText_variantPath hvariants hname hv).append (.fixed rfl)).append
      (hvariants v hv).nestedText).append (.fixed rfl)
  exact .headed rfl rfl (.headed rfl rfl (.lines harm))

end Items

section Chart

variable {c : Chart} (hn : UsableNames c) (hclass : IsIdentifier c.className)

include hn

theorem allTidy_terminalFunction : AllTidy (terminalFunction c) := by
  have hpaths : ∀ path ∈ c.terminalStates.map fun s => variantPath "State" s.id,
      NestedText path := by
    intro path hpath
    obtain ⟨s, hs, rfl⟩ := List.mem_map.1 hpath
    exact (NestedText.fixed rfl).append (hn.terminal s hs).nestedText
  refine .cons (.fixed rfl) (.headed rfl rfl
    (.line ?_))
  split
  · exact NestedText.fixed rfl
  · exact ((NestedText.fixed rfl).append (nestedText_intercalate
      (.fixed rfl) hpaths)).append (.fixed rfl)

/-- The steps of a transition close what they open: they open nothing. -/
theorem nestedText_of_mem_dispatchSteps (hc : c.WellFormed) {t : Transition}
    (ht : t ∈ c.transitions) {debug : Bool} {step : DispatchStep}
    (hstep : step ∈ dispatchSteps debug t) : NestedText step.text := by
  have haction : ∀ action ∈ t.actions, IsIdentifier action := fun action ha =>
    hn.action action (Chart.mem_actions.2 ⟨t, ht, ha⟩)
  unfold dispatchSteps actionSteps at hstep
  cases step with
  | logEvent => exact NestedText.fixed rfl
  | logAction action =>
    have hmem : action ∈ t.actions := by
      cases debug <;> simp at hstep
      exact hstep
    exact (haction action hmem).nestedText_between rfl rfl
  | callHook action =>
    have hmem : action ∈ t.actions := by
      cases debug <;> simpa using hstep
    exact (isIdentifier_hookName (haction action hmem)).nestedText_between rfl rfl
  | enter target =>
    have htarget : target = t.target := by
      cases debug <;> simpa using hstep
    rw [htarget]
    exact (hn.state _ (hc.target_mem t ht)).nestedText_between rfl rfl

theorem allTidy_rowArms (hc : c.WellFormed) {debug : Bool} {rows : List (String × Transition)}
    (hrows : ∀ row ∈ rows, ArmText row.1 ∧ row.2 ∈ c.transitions)
    (hpatterns : ∀ row ∈ rows, NestedText row.1) : AllTidy (rowArms debug rows) := by
  induction rows with
  | nil => exact .nil
  | cons row rows ih =>
    obtain ⟨hpattern, ht⟩ := hrows row List.mem_cons_self
    have hhead : NestedText (row.1 ++ " =>") :=
      (hpatterns row List.mem_cons_self).append (.fixed rfl)
    have hplain : Plain (row.1 ++ " =>" ++ " \x7b") :=
      ((hpattern.append (by decide)).append (by decide)).plain
    exact .cons (.block hplain hhead (.lines fun step hstep =>
        nestedText_of_mem_dispatchSteps hn hc ht hstep))
      (ih (fun next hnext => hrows next (List.mem_cons_of_mem _ hnext))
        fun next hnext => hpatterns next (List.mem_cons_of_mem _ hnext))

theorem allTidy_pushFunction (hc : c.WellFormed) : AllTidy [pushFunction c] := by
  have hpatterns : ∀ row ∈ localRows c, NestedText row.1 := by
    intro row hrow
    obtain ⟨s, hs, hmem⟩ := List.mem_flatMap.1 hrow
    obtain ⟨t, _, rfl⟩ := List.mem_map.1 hmem
    have hevent := hn.event_of_mem (armText_of_mem_localRows hn _ hrow).2
    exact (((hn.state _ (List.mem_map_of_mem hs)).nestedText_between rfl rfl).append
      hevent.nestedText).append (.fixed rfl)
  have harms : AllTidy (rowArms c.debug (localRows c)) :=
    allTidy_rowArms hn hc (armText_of_mem_localRows hn) hpatterns
  rw [← flatMap_localArms] at harms
  exact .headed rfl rfl (.cons (.fixed rfl) (.cons (.fixed rfl) (.cons (.fixed rfl)
    (.cons (.fixed rfl) (.cons (.fixed rfl) (.headed rfl rfl (harms.append (.fixed rfl))))))))

theorem allTidy_baseFunction (hc : c.WellFormed) : AllTidy [baseFunction c] := by
  refine .headed rfl rfl ?_
  cases hbase : c.baseState? with
  | none => exact .fixed rfl
  | some base =>
    have hrows := armText_of_mem_baseRows hn (Chart.mem_states_of_baseState? hbase)
    have hpatterns : ∀ row ∈ baseRows base, NestedText row.1 := by
      intro row hrow
      have ht := (hrows row hrow).2
      obtain ⟨t, _, rfl⟩ := List.mem_map.1 hrow
      exact (NestedText.fixed rfl).append (hn.event_of_mem ht).nestedText
    have harms : AllTidy (rowArms c.debug (baseRows base)) := allTidy_rowArms hn hc hrows hpatterns
    rw [← baseArms_eq] at harms
    exact .headed rfl rfl
      (harms.append (.fixed rfl))

theorem allTidy_machineFunctions (hc : c.WellFormed) : AllTidy (machineFunctions c).flatten := by
  obtain ⟨rest, haccess, hrest⟩ : ∃ rest : List (List Code), accessFunctions c =
      [.line ("pub const INITIAL_STATE: State = State::" ++ c.initial ++ ";")] :: rest ∧
        AllTidy rest.flatten :=
    ⟨[[_], [_], [_], [_], [_], [_]], rfl, .fixed rfl⟩
  have hinitial : NestedText ("pub const INITIAL_STATE: State = State::" ++ c.initial ++ ";") :=
    (hn.state _ hc.initial_mem).nestedText_between rfl rfl
  have henter : AllTidy [enterFunction c.debug] := by
    cases c.debug <;> exact .fixed rfl
  have hlog : AllTidy (if c.debug then logFunctions else []).flatten := by
    cases c.debug <;> exact .fixed rfl
  rw [machineFunctions, haccess, List.flatten_append, List.flatten_append, List.flatten_cons]
  exact (((AllTidy.line hinitial).append hrest).append (.cons (.fixed rfl)
    (.cons (allTidy_pushFunction hn hc) (.cons (allTidy_baseFunction hn hc)
      (.cons henter (.fixed rfl)))))).append hlog

include hclass

theorem allTidy_stateItems : AllTidy (stateItems c).flatten := by
  have hname : IsIdentifier "State" := by decide
  have hfunctions : AllTidy (stateFunctions c).flatten :=
    .cons (allTidy_allVariants hn.state hname) (.cons (allTidy_nameFunction hn.state hname)
      ((allTidy_terminalFunction hn).append .nil))
  exact (allTidy_enumDeclaration hn.state hname (hclass.nestedText_between rfl rfl)).append
    (.cons (.headed rfl rfl (.spaced hfunctions))
      (.fixed rfl))

theorem allTidy_eventItems : AllTidy (eventItems c).flatten := by
  have hname : IsIdentifier "Event" := by decide
  have hfunctions : AllTidy (eventFunctions c).flatten :=
    .cons (allTidy_allVariants hn.event hname) (allTidy_nameFunction hn.event hname)
  exact (allTidy_enumDeclaration hn.event hname (hclass.nestedText_between rfl rfl)).append
    (.cons (.headed rfl rfl (.spaced hfunctions))
      (.fixed rfl))

theorem allTidy_hooksTrait : AllTidy (hooksTrait c) := by
  have hsignature : ∀ action ∈ c.actions, NestedText ("fn " ++ hookName action ++ "(&self, fsm: &"
      ++ c.className ++ "<Self>) -> Result<(), StateError>;") := by
    intro action haction
    have hhook := isIdentifier_hookName (hn.action action haction)
    exact ((hhook.nestedText_between rfl rfl).append hclass.nestedText).append (.fixed rfl)
  exact .cons (.line (hclass.nestedText_between rfl rfl)) (.headed rfl rfl
    (.cons (.line (hclass.nestedText_between rfl rfl)) (.lines hsignature)))

theorem allTidy_traitItems : AllTidy (traitItems c).flatten := by
  obtain ⟨first, rest, hitems, hfirst, hrest⟩ : ∃ first rest : List (List Code),
      traitItems c = first ++ hooksTrait c :: rest ∧ AllTidy first.flatten ∧
        AllTidy rest.flatten :=
    ⟨[[_, _]], [[_, _], [_], [_]], rfl, .fixed rfl, .fixed rfl⟩
  rw [hitems, List.flatten_append, List.flatten_cons]
  exact hfirst.append ((allTidy_hooksTrait hn hclass).append hrest)

theorem allTidy_machineItems (hc : c.WellFormed) : AllTidy (machineItems c).flatten := by
  have hline : '\n' ∉ (c.className ++ "<H>").toList :=
    not_mem_append hclass.not_mem_newline (by decide)
  have hname : NestedText (c.className ++ "<H>") :=
    hclass.nestedText.append (.fixed rfl)
  have hstruct : AllTidy [machineStruct c.className] := by
    rw [machineStruct, String.append_assoc]
    exact .named rfl rfl hline hname (.fixed rfl)
  refine .cons hstruct ?_
  rw [String.append_assoc]
  exact .named rfl rfl hline hname (.spaced (allTidy_machineFunctions hn hc))

/-- All calls for the module of a chart are tidy. -/
theorem allTidy_moduleItems (hc : c.WellFormed) : AllTidy (moduleItems c) := by
  have hpreamble : AllTidy preambleItems.flatten := .fixed rfl
  have herrors : AllTidy errorItems.flatten := .fixed rfl
  simp only [moduleItems, List.flatten_append]
  exact ((((hpreamble.append (allTidy_stateItems hn hclass)).append
    (allTidy_eventItems hn hclass)).append herrors).append (allTidy_traitItems hn hclass)).append
      (allTidy_machineItems hn hclass hc)

omit hclass in
/-- And so they are with the packages around it. -/
theorem allTidy_nest {options : SourceOptions} (hm : ModuleNames c options) (hc : c.WellFormed) :
    AllTidy [nest (packages c options) (moduleCode c)] := by
  have hpackages := hm.package
  generalize packages c options = names at hpackages ⊢
  induction names with
  | nil =>
    exact .named rfl rfl hm.module.not_mem_newline hm.module.nestedText
      (.spaced (allTidy_moduleItems hn hm.className hc))
  | cons name names ih =>
    have hname := hpackages name List.mem_cons_self
    exact .named rfl rfl hname.not_mem_newline hname.nestedText
      (ih fun next hnext => hpackages next (List.mem_cons_of_mem _ hnext))

end Chart

/-! ## Nesting of the source -/

/-- Plain words are indented as deep as they are written. -/
theorem Plain.indent_read {words : String} (h : Plain words) (depth : Nat) :
    (CodeLine.filled depth words).read.indent = 4 * depth := by
  have hread : (CodeLine.filled depth words).read = (CodeLine.filled depth words).toSource :=
    CodeLine.read_of_plain h
  rw [hread]
  rfl

/-- The calls write the text, open and close properly, and so do the braces of the text. -/
structure ProperlyNested (calls : List Call) (text : String) : Prop where
  /-- the writer ends at depth zero, where it started -/
  written : write calls = { text, depth := 0 }
  /-- all braces of the text are opened and closed -/
  braces : Nested brace text.toList
  /-- at any time the writer is as deep as there are braces open -/
  depth : ∀ front, front <+: calls →
    levelAfter? brace 0 (write front).text.toList = some (write front).depth
  /-- nothing is closed at depth zero -/
  closing : ∀ before words after, calls = before ++ .closing words :: after →
    0 < (write before).depth
  /-- whatever is closed has been opened -/
  opened : ∀ before words after, calls = before ++ .closing words :: after →
    ∃ outer head inside, before = outer ++ .opening head :: inside ∧ Nested Call.bracket inside
  /-- and its last line is indented like its first -/
  aligned : ∀ outer head inside words after,
    calls = outer ++ .opening head :: (inside ++ .closing words :: after) →
    Nested Call.bracket inside →
      ((write (outer ++ .opening head :: inside)).lineFor (.closing words)).read.indent =
        ((write outer).lineFor (.opening head)).read.indent

/-- Nested calls of which each is tidy write properly. -/
theorem properlyNested_write {calls : List Call} (hnested : Nested Call.bracket calls)
    (htidy : ∀ call ∈ calls, call.Tidy) : ProperlyNested calls (write calls).text := by
  have hlevel := nested_iff.1 hnested
  have hdepth : ∀ front, front <+: calls →
      levelAfter? brace 0 (write front).text.toList = some (write front).depth := by
    rintro front ⟨rest, rfl⟩
    obtain ⟨next, hfront, -⟩ := levelAfter?_append_eq_some.1 hlevel
    have hend : (write front).depth = next := Writer.depth_run hfront
    rw [hend]
    exact Writer.levelAfter?_run (fun call hcall => htidy call (List.mem_append_left _ hcall))
      hfront rfl
  have hend : (write calls).depth = 0 := Writer.depth_run hlevel
  refine ⟨?_, ?_, hdepth, ?_, ?_, ?_⟩
  · exact congrArg (Writer.mk _) hend
  · have hbraces := hdepth calls (List.prefix_refl calls)
    rw [hend] at hbraces
    exact nested_iff.2 hbraces
  · rintro before words after rfl
    exact Writer.depth_pos hlevel
  · rintro before words after rfl
    obtain ⟨outer, call, inside, hbefore, hcall, hinside⟩ :=
      Text.exists_opening_of_closing hlevel rfl
    cases call with
    | opening head => exact ⟨outer, head, inside, hbefore, hinside⟩
    | line _ => cases hcall
    | blank => cases hcall
    | closing _ => cases hcall
  · rintro outer head inside words after rfl hinside
    have hhead : Plain head := (htidy (.opening head) (by simp)).1
    have hwords : Plain words := (htidy (.closing words) (by simp)).1
    have hlast : (write (outer ++ .opening head :: inside)).lineFor (.closing words) =
        .filled (write outer).depth words := by
      rw [write, Writer.run_append]
      exact Writer.lineFor_closing _ hinside head words
    rw [hlast, hwords.indent_read]
    exact (hhead.indent_read _).symm

/-- **Generated source is properly nested.**  The calls that emit it without a banner open and close
their blocks by hand.  They write the text, and so that its braces are nested, the writer ends at
depth zero, closes nothing at depth zero, and closes every block where it was opened. -/
theorem properlyNested_of_generate {c : Chart} (hd : c.IsDocument) {nestPackages : Bool}
    {text : String} (h : generate c { nestPackages, header := false } = .ok text) :
    ∃ calls, emitSource c { nestPackages, header := false } = .ok calls ∧
      ProperlyNested calls text := by
  have hnames := checkNames_of_generate h
  have hm := moduleNames_of_checkNames hnames
  obtain ⟨hn, rfl⟩ := generate_eq_ok h
  refine ⟨sourceCalls c { nestPackages, header := false }, ?_, ?_⟩
  · rw [emitSource_eq, hnames]
  · have htidy := allTidy_nest hn hm hd.wellFormed
    rw [AllTidy, Code.callsAll_cons, Code.callsAll_nil, List.append_nil] at htidy
    have hnested := nested_sourceCalls c { nestPackages, header := false }
    have hproper := properlyNested_write hnested htidy
    rwa [write_sourceCalls] at hproper

/-- The source of the door is properly nested.  The block that is closed by more than a brace is
closed further in. -/
theorem properlyNested_door :
    ∃ text calls before after, generate .door { header := false } = .ok text ∧
      emitSource .door { header := false } = .ok calls ∧ ProperlyNested calls text ∧
      calls = before ++ .closing "\x7d;" :: after ∧ 0 < (write before).depth := by
  have hgenerate : generate .door { header := false } =
      .ok (renderLines (sourceLines .door { header := false })) := rfl
  obtain ⟨calls, hcalls, hproper⟩ := properlyNested_of_generate Chart.isDocument_door hgenerate
  have hemit : emitSource .door { header := false } = .ok (sourceCalls .door { header := false }) := by
    rw [emitSource_eq, checkNames_of_generate hgenerate]
  obtain rfl : sourceCalls .door { header := false } = calls :=
    Except.ok.inj (hemit.symm.trans hcalls)
  have hguard : (sourceCalls .door { header := false }).contains (.closing "\x7d;") = true := rfl
  obtain ⟨before, after, hsplit⟩ := List.append_of_mem (List.contains_iff_mem.1 hguard)
  exact ⟨_, _, before, after, hgenerate, hcalls, hproper, hsplit, hproper.closing _ _ _ hsplit⟩

end Statechart.Source
