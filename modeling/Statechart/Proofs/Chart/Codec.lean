import Statechart.Chart.Codec
import Statechart.Proofs.Json.RoundTrip
set_option autoImplicit false

/-!
# States as JSON and back

`State.spelling` says how a state is written, word by word: its fields in order, each text in quotes,
and in a text only the characters escaped that must be.  The text of a state is that spelling, and
reading the text gives the state again, whatever characters its names are made of.  So no two
states share a text.
-/

namespace Statechart

open Statechart.Json

/-! ## Spelling -/

/-- The characters that have a short escape, with the letter that stands for them. -/
def shortEscapes : List (Char × Char) :=
  [('\x22', '\x22'), ('\x5c', '\x5c'), ('\x08', 'b'), ('\x0c', 'f'), ('\n', 'n'), ('\r', 'r'),
    ('\t', 't')]

/-- A character in a quoted text: by its short escape, by its number if it is another control
character, or as it is. -/
def spelledChar (c : Char) : List Char :=
  match shortEscapes.lookup c with
  | some letter => ['\x5c', letter]
  | none =>
    if c.toNat < 32 then '\x5c' :: 'u' :: (Nat.toDigits 16 c.toNat).leftpad 4 '0'
    else [c]

/-- A text in quotes. -/
def spelledText (text : String) : String :=
  "\"" ++ String.ofList (text.toList.flatMap spelledChar) ++ "\""

/-- Items in brackets. -/
def spelledList (items : List String) : String :=
  "[" ++ String.intercalate "," items ++ "]"

/-- The text of a transition, field by field. -/
def Transition.spelling (t : Transition) : String :=
  "\x7b\"event\":" ++ spelledText t.event ++ ",\"target\":" ++ spelledText t.target
    ++ ",\"actions\":" ++ spelledList (t.actions.map spelledText) ++ "\x7d"

/-- The text of a state, field by field. -/
def State.spelling (s : State) : String :=
  "\x7b\"id\":" ++ spelledText s.id ++ ",\"transitions\":"
    ++ spelledList (s.transitions.map Transition.spelling) ++ "\x7d"

/-- The four digits of a control character, with zeros in front. -/
theorem numericEscape_eq {n : Nat} (h : n < 32) :
    numericEscape n = '\x5c' :: 'u' :: (Nat.toDigits 16 n).leftpad 4 '0' := by
  have hall : (List.range 32).all (fun k =>
      numericEscape k = '\x5c' :: 'u' :: (Nat.toDigits 16 k).leftpad 4 '0') = true := by
    decide +kernel
  exact of_decide_eq_true (List.all_eq_true.1 hall n (List.mem_range.2 h))

theorem escapeChar_eq (c : Char) : escapeChar c = spelledChar c := by
  by_cases hshort : c ∈ shortEscapes.map (·.1)
  · have hall : (shortEscapes.map (·.1)).all (fun c => escapeChar c = spelledChar c) = true := by
      decide +kernel
    exact of_decide_eq_true (List.all_eq_true.1 hall c hshort)
  · have hnone : shortEscapes.lookup c = none := by
      rw [List.lookup_eq_none_iff]
      intro p hp
      rw [bne_iff_ne]
      rintro rfl
      exact hshort (List.mem_map_of_mem hp)
    simp only [shortEscapes, List.map_cons, List.map_nil, List.mem_cons, List.not_mem_nil, or_false,
      not_or] at hshort
    obtain ⟨hquote, hmark, hb, hf, hn, hr, ht⟩ := hshort
    rw [spelledChar, hnone, escapeChar, if_neg hquote, if_neg hmark, if_neg hb, if_neg hf,
      if_neg hn, if_neg hr, if_neg ht]
    by_cases hcontrol : c.toNat < 32
    · rw [if_pos hcontrol, numericEscape_eq hcontrol]
      simp only [if_pos hcontrol]
    · rw [if_neg hcontrol]
      simp only [if_neg hcontrol]

theorem compact_text (text : String) : (Value.text text).compact = (spelledText text).toList := by
  have hchars : (unitsOf text).flatMap escapeUnit = text.toList.flatMap spelledChar := by
    rw [unitsOf, List.flatMap_map]
    exact congrArg (fun f => text.toList.flatMap f) (funext escapeChar_eq)
  rw [Value.text, Value.compact, quote, hchars, spelledText]
  simp

theorem compactItems_eq (items : List Value) :
    Value.compactItems items = [','].intercalate (items.map Value.compact) := by
  induction items with
  | nil => rfl
  | cons item items ih =>
    cases items with
    | nil => rw [Value.compactItems, List.map_singleton, List.intercalate_singleton]
    | cons next items =>
      rw [Value.compactItems_cons_cons, ih]
      simp only [List.map_cons, List.intercalate_cons_cons, List.append_assoc,
        List.singleton_append]

/-- An array is spelled by the spellings of its items. -/
theorem compact_array {α : Type} (value : α → Value) (spelling : α → String)
    (h : ∀ a, (value a).compact = (spelling a).toList) (xs : List α) :
    (Value.array (xs.map value)).compact = (spelledList (xs.map spelling)).toList := by
  have hitems : (xs.map value).map Value.compact = (xs.map spelling).map String.toList := by
    rw [List.map_map, List.map_map]
    exact List.map_congr_left fun a _ => h a
  rw [Value.compact, compactItems_eq, hitems, spelledList]
  simp [String.toList_intercalate]

theorem Transition.compact_toJson (t : Transition) : t.toJson.compact = t.spelling.toList := by
  have hactions : (Value.texts t.actions).compact =
      (spelledList (t.actions.map spelledText)).toList :=
    compact_array Value.text spelledText compact_text t.actions
  have hevent : quote (unitsOf "event") = "\"event\"".toList := by decide
  have htarget : quote (unitsOf "target") = "\"target\"".toList := by decide
  have hlist : quote (unitsOf "actions") = "\"actions\"".toList := by decide
  simp only [Transition.toJson, Value.record, List.map_cons, List.map_nil, Value.compact,
    Value.compactMembers, hevent, htarget, hlist, compact_text, hactions, Transition.spelling,
    String.toList_append]
  simp

theorem State.toText_eq_spelling (s : State) : s.toText = s.spelling := by
  have htransitions := compact_array Transition.toJson Transition.spelling
    Transition.compact_toJson s.transitions
  have hid : quote (unitsOf "id") = "\"id\"".toList := by decide
  have hlist : quote (unitsOf "transitions") = "\"transitions\"".toList := by decide
  apply String.toList_inj.1
  rw [State.toText, String.toList_ofList]
  simp only [State.toJson, Value.record, List.map_cons, List.map_nil, Value.compact,
    Value.compactMembers, hid, hlist, compact_text, State.spelling, String.toList_append]
  simp [← htransitions, Value.compact]

/-! ## Reading -/

theorem readsBack_texts (texts : List String) : (Value.texts texts).ReadsBack := by
  refine Value.readsBack_array fun item hitem => ?_
  obtain ⟨text, _, rfl⟩ := List.mem_map.1 hitem
  exact Value.readsBack_text text

theorem Transition.readsBack_toJson (t : Transition) : t.toJson.ReadsBack := by
  refine Value.readsBack_record ?_
  simp only [List.forall_mem_cons, List.not_mem_nil, false_implies, implies_true, and_true]
  exact ⟨Value.readsBack_text t.event, Value.readsBack_text t.target, readsBack_texts t.actions⟩

theorem State.readsBack_toJson (s : State) : s.toJson.ReadsBack := by
  refine Value.readsBack_record ?_
  simp only [List.forall_mem_cons, List.not_mem_nil, false_implies, implies_true, and_true]
  refine ⟨Value.readsBack_text s.id, Value.readsBack_array fun item hitem => ?_⟩
  obtain ⟨t, _, rfl⟩ := List.mem_map.1 hitem
  exact t.readsBack_toJson

@[simp] theorem asText?_text (text : String) : (Value.text text).asText? = some text := by
  rw [Value.text, Value.asText?, textOf?_unitsOf]

/-- Items that are taken for what they were made of give a list again. -/
theorem asList?_array {α : Type} {item? : Value → Option α} {value : α → Value}
    (h : ∀ a, item? (value a) = some a) (xs : List α) :
    (Value.array (xs.map value)).asList? item? = some xs := by
  have hsome : item? ∘ value = fun a => pure (id a) := funext h
  rw [Value.asList?, List.mapM_map, hsome, List.mapM_pure, List.map_id]
  rfl

theorem Transition.ofJson?_toJson (t : Transition) : Transition.ofJson? t.toJson = some t := by
  have hactions : (Value.texts t.actions).asList? Value.asText? = some t.actions :=
    asList?_array asText?_text t.actions
  simp [Transition.toJson, Transition.ofJson?, Value.record, Value.namedMembers?, Value.member?,
    hactions]

theorem State.ofJson?_toJson (s : State) : State.ofJson? s.toJson = some s := by
  have htransitions := asList?_array Transition.ofJson?_toJson s.transitions
  simp [State.toJson, State.ofJson?, Value.record, Value.namedMembers?, Value.member?,
    htransitions]

theorem State.ofText?_toText (s : State) : State.ofText? s.toText = some s := by
  rw [State.ofText?, State.toText, Value.ofText?, String.toList_ofList,
    s.readsBack_toJson.ofChars?, Option.bind_some, State.ofJson?_toJson]

/-- **A state is read from its text.**  The text is the spelling of the state, field by field, and
reading it gives the state, so that different states have different texts. -/
theorem State.text_determines_state :
    (∀ s : State, s.toText = s.spelling ∧ State.ofText? s.toText = some s) ∧
      Function.Injective State.toText := by
  refine ⟨fun s => ⟨s.toText_eq_spelling, s.ofText?_toText⟩, fun s s' heq => ?_⟩
  have hread := s.ofText?_toText
  rw [heq, s'.ofText?_toText] at hread
  exact (Option.some.inj hread).symm

end Statechart
