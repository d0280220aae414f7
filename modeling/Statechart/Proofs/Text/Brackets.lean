import Mathlib.Data.List.Induction
set_option autoImplicit false

/-!
# Text: brackets

Some items of a list open something, and some close what was opened last.  The list is nested if no
part of it in front closes more than it opens, and all of it closes as much as it opens (`Nested`).
To tell, one goes through the list and keeps the level (`levelAfter?`).  In a list on which this
succeeds each item that closes has one that opens, with a nested list between them
(`exists_opening_of_closing`).
-/

namespace Statechart.Text

/-- What an item does to the level of nesting. -/
inductive Bracket where
  | opening
  | closing
  | neither
  deriving DecidableEq, Repr

/-- The level after an item.  Nothing can be closed at level zero. -/
def Bracket.level? : Bracket → Nat → Option Nat
  | .opening, level => some (level + 1)
  | .closing, 0 => none
  | .closing, level + 1 => some level
  | .neither, level => some level

section Definitions

variable {α : Type} (kind : α → Bracket)

/-- The level after items that start at a level. -/
def levelAfter? : Nat → List α → Option Nat
  | level, [] => some level
  | level, x :: xs => ((kind x).level? level).bind fun next => levelAfter? next xs

/-- How many items open something. -/
def openings (xs : List α) : Nat :=
  xs.countP (kind · = .opening)

/-- How many items close something. -/
def closings (xs : List α) : Nat :=
  xs.countP (kind · = .closing)

/-- Everything is closed that is opened, and nothing is closed before it is opened. -/
structure Nested (xs : List α) : Prop where
  closings_le : ∀ front, front <+: xs → closings kind front ≤ openings kind front
  closings_eq : closings kind xs = openings kind xs

end Definitions

variable {α : Type} {kind : α → Bracket}

@[simp] theorem levelAfter?_nil (level : Nat) : levelAfter? kind level [] = some level := rfl

theorem levelAfter?_cons (level : Nat) (x : α) (xs : List α) :
    levelAfter? kind level (x :: xs) =
      ((kind x).level? level).bind fun next => levelAfter? kind next xs := rfl

theorem levelAfter?_singleton (level : Nat) (x : α) :
    levelAfter? kind level [x] = (kind x).level? level := by
  rw [levelAfter?_cons]
  cases (kind x).level? level with
  | none => rfl
  | some next => rfl

theorem levelAfter?_append (level : Nat) (xs ys : List α) :
    levelAfter? kind level (xs ++ ys) =
      (levelAfter? kind level xs).bind fun next => levelAfter? kind next ys := by
  induction xs generalizing level with
  | nil => rfl
  | cons x xs ih =>
    rw [List.cons_append, levelAfter?_cons, levelAfter?_cons]
    cases (kind x).level? level with
    | none => rfl
    | some next => exact ih next

/-- Where two lists follow each other, the second starts at the level that the first ends at. -/
theorem levelAfter?_append_eq_some {level last : Nat} {xs ys : List α} :
    levelAfter? kind level (xs ++ ys) = some last ↔
      ∃ next, levelAfter? kind level xs = some next ∧ levelAfter? kind next ys = some last := by
  rw [levelAfter?_append, Option.bind_eq_some_iff]

/-! ## Counting -/

theorem openings_cons (x : α) (xs : List α) :
    openings kind (x :: xs) = openings kind xs + if kind x = .opening then 1 else 0 := by
  simp [openings, List.countP_cons]

theorem closings_cons (x : α) (xs : List α) :
    closings kind (x :: xs) = closings kind xs + if kind x = .closing then 1 else 0 := by
  simp [closings, List.countP_cons]

theorem forall_prefix_cons {p : List α → Prop} {x : α} {xs : List α} :
    (∀ front, front <+: x :: xs → p front) ↔ p [] ∧ ∀ front, front <+: xs → p (x :: front) := by
  constructor
  · intro h
    exact ⟨h [] List.nil_prefix, fun front hfront => h _ ((List.prefix_cons_inj x).2 hfront)⟩
  · rintro ⟨hnil, hcons⟩ front hfront
    rcases List.prefix_cons_iff.1 hfront with rfl | ⟨rest, rfl, hrest⟩
    · exact hnil
    · exact hcons rest hrest

/-- The level is what has been opened and not closed. -/
theorem levelAfter?_eq_some_iff {level last : Nat} {xs : List α} :
    levelAfter? kind level xs = some last ↔
      (∀ front, front <+: xs → closings kind front ≤ level + openings kind front) ∧
        level + openings kind xs = last + closings kind xs := by
  induction xs generalizing level with
  | nil => simp [openings, closings]
  | cons x xs ih =>
    have hnil : closings kind ([] : List α) ≤ level + openings kind ([] : List α) := Nat.zero_le _
    rw [levelAfter?_cons, forall_prefix_cons, and_iff_right hnil]
    simp only [openings_cons, closings_cons]
    cases hx : kind x with
    | opening =>
      have hnext : ∀ m n : Nat, n ≤ level + 1 + m ↔ n + 0 ≤ level + (m + 1) := by omega
      simp only [Bracket.level?, Option.bind_some, ih, reduceCtorEq, if_true, if_false, hnext]
      exact and_congr_right fun _ => by omega
    | closing =>
      cases level with
      | zero =>
        refine iff_of_false (fun h => by cases h) ?_
        rintro ⟨hle, -⟩
        exact absurd (hle [] List.nil_prefix) (by simp [openings, closings])
      | succ level =>
        have hnext : ∀ m n : Nat, n ≤ level + m ↔ n + 1 ≤ level + 1 + (m + 0) := by omega
        simp only [Bracket.level?, Option.bind_some, ih, reduceCtorEq, if_true, if_false, hnext]
        exact and_congr_right fun _ => by omega
    | neither =>
      simp only [Bracket.level?, Option.bind_some, ih, reduceCtorEq, if_false, Nat.add_zero]

theorem nested_iff {xs : List α} : Nested kind xs ↔ levelAfter? kind 0 xs = some 0 := by
  rw [levelAfter?_eq_some_iff]
  simp only [Nat.zero_add]
  exact ⟨fun h => ⟨h.closings_le, h.closings_eq.symm⟩, fun h => ⟨h.1, h.2.symm⟩⟩

instance (xs : List α) : Decidable (Nested kind xs) :=
  decidable_of_iff _ nested_iff.symm

/-! ## Levels further in -/

/-- Everything can happen further in as well. -/
theorem levelAfter?_add {level last : Nat} {xs : List α} (h : levelAfter? kind level xs = some last)
    (k : Nat) : levelAfter? kind (level + k) xs = some (last + k) := by
  rw [levelAfter?_eq_some_iff] at h ⊢
  obtain ⟨hle, heq⟩ := h
  refine ⟨fun front hfront => ?_, by omega⟩
  have hfront := hle front hfront
  omega

/-- A nested list leads back to the level where it starts. -/
theorem Nested.levelAfter? {xs : List α} (h : Nested kind xs) (level : Nat) :
    levelAfter? kind level xs = some level := by
  have hlevel := levelAfter?_add (nested_iff.1 h) level
  rwa [Nat.zero_add] at hlevel

theorem Nested.append {xs ys : List α} (hxs : Nested kind xs) (hys : Nested kind ys) :
    Nested kind (xs ++ ys) :=
  nested_iff.2 (levelAfter?_append_eq_some.2 ⟨0, nested_iff.1 hxs, nested_iff.1 hys⟩)

theorem nested_of_neither {xs : List α} (h : ∀ x ∈ xs, kind x = .neither) : Nested kind xs := by
  rw [nested_iff]
  induction xs with
  | nil => rfl
  | cons x xs ih =>
    rw [levelAfter?_cons, h x List.mem_cons_self]
    exact ih fun y hy => h y (List.mem_cons_of_mem _ hy)

/-! ## What closes what -/

theorem levelAfter?_singleton_eq_some_iff {level last : Nat} {x : α} :
    levelAfter? kind level [x] = some last ↔
      level + openings kind [x] = last + closings kind [x] := by
  rw [levelAfter?_eq_some_iff, and_iff_right_iff_imp]
  intro h front hfront
  rcases List.prefix_cons_iff.1 hfront with rfl | ⟨rest, rfl, hrest⟩
  · exact Nat.zero_le _
  · rw [List.prefix_nil.1 hrest]
    omega

/-- Out of every level below the last one some item leads for the last time, and what follows stays
further in. -/
theorem exists_opening {xs : List α} {level last : Nat} (h : levelAfter? kind 0 xs = some last)
    (hlevel : level < last) :
    ∃ outer x inside, xs = outer ++ x :: inside ∧ kind x = .opening ∧
      levelAfter? kind 0 outer = some level ∧
      levelAfter? kind 0 inside = some (last - (level + 1)) := by
  -- from the end: if the list without its last item is above the level, the item is found in there
  induction xs using List.reverseRecOn generalizing last with
  | nil =>
    cases h
    omega
  | append_singleton xs x ih =>
    obtain ⟨next, hnext, hlast⟩ := levelAfter?_append_eq_some.1 h
    rw [levelAfter?_singleton_eq_some_iff] at hlast
    by_cases hbelow : level < next
    · obtain ⟨outer, y, inside, rfl, hy, houter, hinside⟩ := ih hnext hbelow
      refine ⟨outer, y, inside ++ [x], by simp, hy, houter, ?_⟩
      refine levelAfter?_append_eq_some.2 ⟨_, hinside, levelAfter?_singleton_eq_some_iff.2 ?_⟩
      omega
    · rw [openings_cons, closings_cons] at hlast
      by_cases hx : kind x = .opening
      · simp only [hx, reduceCtorEq, if_true, if_false, openings, closings,
          List.countP_nil] at hlast
        obtain rfl : next = level := by omega
        obtain rfl : last = next + 1 := by omega
        exact ⟨xs, x, [], rfl, hx, hnext, by simp⟩
      · simp only [hx, if_false, openings, closings, List.countP_nil] at hlast
        omega

/-- What is closed has been opened, and what stands between is nested. -/
theorem exists_opening_of_closing {before after : List α} {x : α} {last : Nat}
    (h : levelAfter? kind 0 (before ++ x :: after) = some last) (hx : kind x = .closing) :
    ∃ outer y inside, before = outer ++ y :: inside ∧ kind y = .opening ∧ Nested kind inside := by
  obtain ⟨next, hnext, hlast⟩ := levelAfter?_append_eq_some.1 h
  rw [levelAfter?_cons, hx] at hlast
  cases next with
  | zero => cases hlast
  | succ level =>
    obtain ⟨outer, y, inside, hsplit, hy, -, hinside⟩ :=
      exists_opening hnext (Nat.lt_succ_self level)
    rw [Nat.sub_self] at hinside
    exact ⟨outer, y, inside, hsplit, hy, nested_iff.2 hinside⟩

end Statechart.Text
