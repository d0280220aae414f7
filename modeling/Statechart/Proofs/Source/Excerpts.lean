import Mathlib.Data.List.Basic
import Statechart.Proofs.Source.Scopes
import Statechart.Text.Cut
set_option autoImplicit false

/-!
# Source: excerpts

Readers for parts of a line: what stands between two texts, on both sides of a mark, and between the
marks of a list.  Each of them gives back what was written, provided that the mark does not start
anywhere before it was put.
-/

namespace Statechart.Text

/-- A text is cut where the mark was put, if the mark does not start before. -/
theorem cutAt_append {c : Char} {mark before : List Char} (h : c ∉ before) (after : List Char) :
    cutAt (c :: mark) (before ++ (c :: mark ++ after)) = some (before, after) := by
  induction before with
  | nil =>
    have hstarts : (c :: mark).isPrefixOf (c :: mark ++ after) = true :=
      List.isPrefixOf_iff_prefix.2 (List.prefix_append _ _)
    rw [List.nil_append, List.cons_append, cutAt, ← List.cons_append, if_pos hstarts,
      List.drop_left]
  | cons d before ih =>
    obtain ⟨hne, hrest⟩ := not_or.1 (mt List.mem_cons.2 h)
    have hstarts : ¬ (c :: mark).isPrefixOf (d :: (before ++ (c :: mark ++ after))) = true := by
      simp [List.isPrefixOf, hne]
    rw [List.cons_append, cutAt, if_neg hstarts, ih hrest, Option.map_some]

/-- There is no cut where the mark does not start. -/
theorem cutAt_of_not_mem {c : Char} {mark cs : List Char} (h : c ∉ cs) :
    cutAt (c :: mark) cs = none := by
  induction cs with
  | nil => rfl
  | cons d cs ih =>
    obtain ⟨hne, hrest⟩ := not_or.1 (mt List.mem_cons.2 h)
    have hstarts : ¬ (c :: mark).isPrefixOf (d :: cs) = true := by
      simp [List.isPrefixOf, hne]
    rw [cutAt, if_neg hstarts, ih hrest, Option.map_none]

/-- The pieces of a text between the occurrences of a mark. -/
def pieces (mark cs : List Char) : List (List Char) :=
  if mark = [] then [cs]
  else
    match _ : cutAt mark cs with
    | none => [cs]
    | some (before, after) => before :: pieces mark after
termination_by cs.length
decreasing_by
  rename_i hne hcut
  have hlength := congrArg List.length (cutAt_eq_some hcut)
  have hmark : 0 < mark.length := List.length_pos_iff.2 hne
  simp only [List.length_append] at hlength
  omega

theorem pieces_of_not_mem {c : Char} {mark cs : List Char} (h : c ∉ cs) :
    pieces (c :: mark) cs = [cs] := by
  rw [pieces, if_neg (List.cons_ne_nil _ _)]
  split
  · rfl
  · rename_i hcut
    rw [cutAt_of_not_mem h] at hcut
    cases hcut

theorem pieces_append {c : Char} {mark before : List Char} (h : c ∉ before) (after : List Char) :
    pieces (c :: mark) (before ++ (c :: mark ++ after)) = before :: pieces (c :: mark) after := by
  rw [pieces, if_neg (List.cons_ne_nil _ _)]
  split
  · rename_i hcut
    rw [cutAt_append h] at hcut
    cases hcut
  · rename_i hcut
    rw [cutAt_append h] at hcut
    cases hcut
    rfl

/-- Texts in which the mark does not start are read back from between the marks. -/
theorem pieces_intercalate {c : Char} {mark : List Char} {texts : List (List Char)}
    (hne : texts ≠ []) (h : ∀ text ∈ texts, c ∉ text) :
    pieces (c :: mark) ((c :: mark).intercalate texts) = texts := by
  induction texts with
  | nil => exact absurd rfl hne
  | cons text texts ih =>
    have htext := h text List.mem_cons_self
    cases texts with
    | nil => rw [List.intercalate_singleton, pieces_of_not_mem htext]
    | cons next texts =>
      rw [List.intercalate_cons_cons, List.append_assoc, pieces_append htext,
        ih (List.cons_ne_nil _ _) fun other hother => h other (List.mem_cons_of_mem _ hother)]

end Statechart.Text

namespace Statechart.Source

/-! ## Parts of a line -/

/-- What stands between two texts that a text starts and ends with. -/
def between? (front back text : String) : Option String :=
  ((text.toList.dropPrefix? front.toList).bind (·.dropSuffix? back.toList)).map String.ofList

theorem between?_append (front inside back : String) :
    between? front back (front ++ (inside ++ back)) = some inside := by
  have hback : (inside.toList ++ back.toList).dropSuffix? back.toList = some inside.toList :=
    List.dropSuffix?_eq_some_iff.2 ⟨_, rfl, BEq.rfl⟩
  unfold between?
  rw [String.toList_append, List.dropPrefix?_append_of_beq _ BEq.rfl, String.toList_append,
    Option.bind_some, hback, Option.map_some, String.ofList_toList]

/-- Nothing is found in a text that starts otherwise. -/
theorem between?_eq_none {front text : String}
    (h : front.toList.isPrefixOf text.toList = false) (more back : String) :
    between? (front ++ more) back text = none := by
  have hdrop : text.toList.dropPrefix? (front ++ more).toList = none := by
    refine Option.eq_none_iff_forall_not_mem.2 fun rest hrest => ?_
    obtain ⟨start, htext, hstart⟩ := List.dropPrefix?_eq_some_iff.1 hrest
    have hstarts : front.toList.isPrefixOf text.toList = true := by
      rw [htext, eq_of_beq hstart, String.toList_append, List.append_assoc]
      exact List.isPrefixOf_iff_prefix.2 (List.prefix_append _ _)
    rw [hstarts] at h
    cases h
  rw [between?, hdrop]
  rfl

/-- Nothing is found in fixed words that start otherwise. -/
theorem filterMap_between?_eq_nil {front : String} {texts : List String}
    (h : (texts.all fun text => (bytesOf front).isPrefixOf (bytesOf text) = false) = true)
    (back : String) : texts.filterMap (between? front back) = [] := by
  refine List.filterMap_eq_nil_iff.2 fun text htext => ?_
  have hstarts := of_decide_eq_true (List.all_eq_true.1 h text htext)
  have hnone := between?_eq_none (isPrefixOf_eq_false_of_bytesOf hstarts) "" back
  rwa [String.append_empty] at hnone

/-- What stands before and after the first occurrence of a mark. -/
def cut? (mark text : String) : Option (String × String) :=
  (Text.cutAt mark.toList text.toList).map fun (before, after) =>
    (String.ofList before, String.ofList after)

theorem cut?_append {mark : String} {c : Char} (hmark : mark.toList.head? = some c)
    {before : String} (h : c ∉ before.toList) (after : String) :
    cut? mark (before ++ (mark ++ after)) = some (before, after) := by
  obtain ⟨cs, hcs⟩ := List.head?_eq_some_iff.1 hmark
  unfold cut?
  rw [String.toList_append, String.toList_append, hcs, Text.cutAt_append h, Option.map_some]
  simp only [String.ofList_toList]

/-- The items of a list that is written with a mark between one item and the next. -/
def items (mark text : String) : List String :=
  if text = "" then [] else (Text.pieces mark.toList text.toList).map String.ofList

/-- Items in which the mark does not start are read back. -/
theorem items_intercalate {mark : String} {c : Char} (hmark : mark.toList.head? = some c)
    {texts : List String} (h : ∀ text ∈ texts, text ≠ "" ∧ c ∉ text.toList) :
    items mark (String.intercalate mark texts) = texts := by
  obtain ⟨cs, hcs⟩ := List.head?_eq_some_iff.1 hmark
  cases texts with
  | nil => rfl
  | cons text texts =>
    have hne : String.intercalate mark (text :: texts) ≠ "" := by
      intro hempty
      have htext := (h text List.mem_cons_self).1
      cases texts <;> simp [String.intercalate_cons_cons, htext] at hempty
    have hchars : ∀ other ∈ (text :: texts).map String.toList, c ∉ other := by
      intro other hother
      obtain ⟨name, hname, rfl⟩ := List.mem_map.1 hother
      exact (h name hname).2
    rw [items, if_neg hne, String.toList_intercalate, hcs,
      Text.pieces_intercalate (by simp) hchars, List.map_map]
    exact (List.map_congr_left fun name _ => String.ofList_toList).trans (List.map_id _)

/-- The number that a numeral writes. -/
def numeral? (text : String) : Option Nat :=
  if text ≠ "" ∧ text.toList.all Char.isDigit then some (Nat.ofDigitChars 10 text.toList 0)
  else none

theorem numeral?_toString (n : Nat) : numeral? (toString n) = some n := by
  have hdigits : (toString n).toList.all Char.isDigit = true :=
    List.all_eq_true.2 fun _ hc => isDigit_of_mem_toString hc
  have hlist : (toString n).toList = Nat.toDigits 10 n := by
    rw [Nat.toString_eq_ofList_toDigits, String.toList_ofList]
  have hne : toString n ≠ "" := by
    intro hempty
    rw [hempty] at hlist
    exact Nat.toDigits_ne_nil hlist.symm
  rw [numeral?, if_pos ⟨hne, hdigits⟩, hlist, Nat.ofDigitChars_ten_toDigits]

end Statechart.Source
