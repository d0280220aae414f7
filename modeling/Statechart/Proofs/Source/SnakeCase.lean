import Mathlib.Data.List.Chain
import Statechart.Proofs.Source.Names
set_option autoImplicit false

/-!
# Source: names in snake case

A name in snake case has the characters of the name, with capitals lowered, and underscores that
were put in between.  `snakeLetters` tells the two apart.  What is put in stands between characters
that are no underscores (`isChain_snakeLetters`), so that it is neither first nor last and leaves
the underscores of the name as they were.  Hence an identifier stays one, unless it becomes a word
that is reserved (`isIdentifier_snakeCase_iff`).
-/

namespace Statechart.Source

/-! ## Characters -/

theorem toLower_of_not_isUpper {c : Char} (h : c.isUpper = false) : c.toLower = c := by
  have hcase : ¬ (c.val ≥ 'A'.val ∧ c.val ≤ 'Z'.val) := of_decide_eq_false h
  unfold Char.toLower
  rw [dif_neg hcase]

theorem isUpper_of_isLower {c : Char} (h : c.isLower = true) : c.isUpper = false := by
  have hsmall : 'a'.val ≤ c.val := of_decide_eq_true (Bool.and_eq_true_iff.1 h).1
  refine decide_eq_false ?_
  rintro ⟨-, hlarge⟩
  exact absurd (UInt32.le_trans hsmall hlarge) (by decide)

/-- A lowered character is no capital. -/
theorem isUpper_toLower (c : Char) : c.toLower.isUpper = false := by
  cases h : c.isUpper with
  | false => rw [toLower_of_not_isUpper h, h]
  | true => exact isUpper_of_isLower (isLower_toLower h)

theorem eq_underscore_of_toLower {c : Char} (h : c.toLower = '_') : c = '_' := by
  cases hupper : c.isUpper with
  | false => rwa [toLower_of_not_isUpper hupper] at h
  | true =>
    have hlower := isLower_toLower hupper
    rw [h] at hlower
    exact absurd hlower (by decide)

theorem toLower_ne_underscore {c : Char} (h : c ≠ '_') : c.toLower ≠ '_' :=
  mt eq_underscore_of_toLower h

theorem ne_underscore_of_isUpper {c : Char} (h : c.isUpper = true) : c ≠ '_' := by
  rintro rfl
  exact absurd h (by decide)

/-- After an underscore no capital starts a word: it is there already. -/
theorem startsWord_underscore (next : Option Char) : startsWord (some '_') next = false := rfl

/-- Where no word can start, a character is lowered and nothing is put in. -/
theorem snakeChars_cons {previous : Option Char} (h : ∀ next, startsWord previous next = false)
    (c : Char) (cs : List Char) :
    snakeChars previous (c :: cs) = c.toLower :: snakeChars (some c) cs := by
  rw [snakeChars, h]
  cases hupper : c.isUpper with
  | false => rw [toLower_of_not_isUpper hupper]; rfl
  | true => rfl

/-! ## Where the characters come from -/

/-- A character of a name in snake case. -/
inductive Letter where
  /-- one of the name -/
  | kept (c : Char)
  /-- an underscore that was put in -/
  | inserted
  deriving DecidableEq, Repr

/-- A character as it is written. -/
def Letter.char : Letter → Char
  | .kept c => c.toLower
  | .inserted => '_'

/-- The character of the name that is written there. -/
def Letter.source? : Letter → Option Char
  | .kept c => some c
  | .inserted => none

/-- The snake case of characters that follow `previous`, with what is put in told apart. -/
def snakeLetters (previous : Option Char) : List Char → List Letter
  | [] => []
  | c :: cs =>
    (if c.isUpper && startsWord previous cs.head? then [.inserted] else [])
      ++ .kept c :: snakeLetters (some c) cs

/-- Two letters side by side that are both underscores are both of the name. -/
def Letter.Apart (a b : Letter) : Prop :=
  a.char = '_' → b.char = '_' → a ≠ .inserted ∧ b ≠ .inserted

theorem map_char_snakeLetters (previous : Option Char) (cs : List Char) :
    (snakeLetters previous cs).map Letter.char = snakeChars previous cs := by
  induction cs generalizing previous with
  | nil => rfl
  | cons c cs ih =>
    rw [snakeLetters, snakeChars, List.map_append, List.map_cons, ih]
    cases hupper : c.isUpper with
    | false => simp [Letter.char, toLower_of_not_isUpper hupper]
    | true => cases startsWord previous cs.head? <;> simp [Letter.char]

theorem filterMap_source?_snakeLetters (previous : Option Char) (cs : List Char) :
    (snakeLetters previous cs).filterMap Letter.source? = cs := by
  induction cs generalizing previous with
  | nil => rfl
  | cons c cs ih =>
    rw [snakeLetters, List.filterMap_append]
    cases c.isUpper && startsWord previous cs.head? <;> simp [Letter.source?, ih]

/-- What follows a character starts with an underscore that was put in only if the character is no
underscore itself. -/
theorem apart_of_mem_head?_snakeLetters {c : Char} {cs : List Char} {b : Letter}
    (h : b ∈ (snakeLetters (some c) cs).head?) : (Letter.kept c).Apart b := by
  intro hc _
  obtain rfl := eq_underscore_of_toLower hc
  refine ⟨Letter.noConfusion, ?_⟩
  rintro rfl
  cases cs with
  | nil => cases h
  | cons d ds =>
    rw [snakeLetters, startsWord_underscore, Bool.and_false] at h
    cases h

/-- An underscore that is put in stands between characters that are none. -/
theorem isChain_snakeLetters (previous : Option Char) (cs : List Char) :
    (snakeLetters previous cs).IsChain Letter.Apart := by
  induction cs generalizing previous with
  | nil => exact .nil
  | cons c cs ih =>
    have hkept : (Letter.kept c :: snakeLetters (some c) cs).IsChain Letter.Apart :=
      List.isChain_cons.2 ⟨fun _ hb => apart_of_mem_head?_snakeLetters hb, ih (some c)⟩
    rw [snakeLetters]
    cases hinsert : c.isUpper && startsWord previous cs.head? with
    | false => exact hkept
    | true =>
      have hupper : c.isUpper = true := (Bool.and_eq_true_iff.1 hinsert).1
      refine .cons_cons ?_ hkept
      exact fun _ hc => absurd hc (toLower_ne_underscore (ne_underscore_of_isUpper hupper))

theorem head?_snakeLetters_ne (cs : List Char) :
    (snakeLetters none cs).head? ≠ some .inserted := by
  intro h
  cases cs with
  | nil => cases h
  | cons c cs =>
    have hfirst : startsWord none cs.head? = false := rfl
    rw [snakeLetters, hfirst, Bool.and_false] at h
    cases h

theorem getLast?_snakeLetters_ne (previous : Option Char) (cs : List Char) :
    (snakeLetters previous cs).getLast? ≠ some .inserted := by
  induction cs generalizing previous with
  | nil => simp [snakeLetters]
  | cons c cs ih =>
    have hlast := ih (some c)
    rw [snakeLetters, List.getLast?_append, List.getLast?_cons]
    cases hletters : (snakeLetters (some c) cs).getLast? with
    | none => simp
    | some letter =>
      rw [hletters] at hlast
      exact hlast

/-! ## Underscores -/

/-- Where two underscores stand side by side, told by how many other characters stand before
them. -/
def underscorePairs (others : Nat) : List Char → List Nat
  | [] => []
  | c :: cs =>
    if c = '_' then (if cs.head? = some '_' then [others] else []) ++ underscorePairs others cs
    else underscorePairs (others + 1) cs

/-- After an underscore there is one exactly if there was one before. -/
theorem head?_snakeChars_underscore (cs : List Char) :
    (snakeChars (some '_') cs).head? = some '_' ↔ cs.head? = some '_' := by
  cases cs with
  | nil => rfl
  | cons c cs =>
    rw [snakeChars_cons startsWord_underscore, List.head?_cons, List.head?_cons, Option.some.injEq,
      Option.some.injEq]
    exact ⟨eq_underscore_of_toLower, fun h => by rw [h]; rfl⟩

theorem underscorePairs_cons_of_ne {c : Char} (h : c ≠ '_') (others : Nat) (cs : List Char) :
    underscorePairs others (c :: cs) = underscorePairs (others + 1) cs := by
  rw [underscorePairs, if_neg h]

/-- Pairs of underscores are where they were. -/
theorem underscorePairs_snakeChars (previous : Option Char) (cs : List Char) (others : Nat) :
    underscorePairs others (snakeChars previous cs) = underscorePairs others cs := by
  induction cs generalizing previous others with
  | nil => rfl
  | cons c cs ih =>
    by_cases hc : c = '_'
    · subst hc
      have hsnake : snakeChars previous ('_' :: cs) = '_' :: snakeChars (some '_') cs := rfl
      rw [hsnake, underscorePairs, underscorePairs, if_pos rfl, if_pos rfl, ih]
      simp only [head?_snakeChars_underscore]
    · have hlower := toLower_ne_underscore hc
      have hrest : underscorePairs others (c.toLower :: snakeChars (some c) cs) =
          underscorePairs others (c :: cs) := by
        rw [underscorePairs_cons_of_ne hlower, underscorePairs_cons_of_ne hc, ih]
      rw [snakeChars]
      cases hupper : c.isUpper with
      | false =>
        rw [toLower_of_not_isUpper hupper] at hrest
        exact hrest
      | true =>
        cases startsWord previous cs.head? with
        | false => exact hrest
        | true =>
          -- what was put in is followed by a letter, and so is not the first of a pair
          have hhead : ¬ (c.toLower :: snakeChars (some c) cs).head? = some '_' := fun h =>
            hlower (Option.some.inj h)
          refine Eq.trans ?_ hrest
          exact (congrArg (· ++ _) (if_neg hhead)).trans (List.nil_append _)

/-- A name has the underscores in front that it had. -/
theorem takeWhile_snakeChars {previous : Option Char}
    (h : ∀ next, startsWord previous next = false) (cs : List Char) :
    (snakeChars previous cs).takeWhile (· = '_') = cs.takeWhile (· = '_') := by
  induction cs generalizing previous with
  | nil => rfl
  | cons c cs ih =>
    rw [snakeChars_cons h]
    by_cases hc : c = '_'
    · subst hc
      have hlower : '_'.toLower = '_' := rfl
      rw [hlower, List.takeWhile_cons_of_pos (by decide), List.takeWhile_cons_of_pos (by decide),
        ih startsWord_underscore]
    · have hfirst : ∀ (d : Char) (ds : List Char), d ≠ '_' → (d :: ds).takeWhile (· = '_') = [] :=
        fun d ds hd => List.takeWhile_cons_of_neg (by simpa using hd)
      rw [hfirst c cs hc, hfirst _ _ (toLower_ne_underscore hc)]

/-! ## Capitals -/

theorem not_isUpper_of_mem_snakeChars {previous : Option Char} {cs : List Char} {c : Char}
    (h : c ∈ snakeChars previous cs) : c.isUpper = false := by
  rw [← map_char_snakeLetters] at h
  obtain ⟨letter, _, rfl⟩ := List.mem_map.1 h
  cases letter with
  | kept d => exact isUpper_toLower d
  | inserted => rfl

/-- What has no capitals is in snake case. -/
theorem snakeChars_of_not_isUpper {cs : List Char} (h : ∀ c ∈ cs, c.isUpper = false)
    (previous : Option Char) : snakeChars previous cs = cs := by
  induction cs generalizing previous with
  | nil => rfl
  | cons c cs ih =>
    rw [snakeChars, h c List.mem_cons_self, ih fun d hd => h d (List.mem_cons_of_mem _ hd)]
    rfl

/-- Without underscores nothing is left but the characters of the name, lowered. -/
theorem filter_map_char (letters : List Letter) :
    (letters.map Letter.char).filter (· ≠ '_') =
      ((letters.filterMap Letter.source?).map Char.toLower).filter (· ≠ '_') := by
  induction letters with
  | nil => rfl
  | cons letter letters ih =>
    cases letter with
    | kept c =>
      have hsource : (Letter.kept c).source? = some c := rfl
      rw [List.map_cons, List.filterMap_cons_some hsource, List.map_cons, List.filter_cons,
        List.filter_cons, ih]
      rfl
    | inserted => exact ih

/-! ## Identifiers -/

theorem isIdentifier_iff {name : String} :
    IsIdentifier name ↔
      name ≠ "_" ∧ hasIdentifierForm name.toList = true ∧ name ∉ reservedWords := by
  constructor
  · intro h
    have hform := h.hasIdentifierForm
    have hlone : name ≠ "_" := by
      rintro rfl
      exact absurd h (by decide)
    refine ⟨hlone, hform, fun hword => ?_⟩
    simp [IsIdentifier, identifierFault?, h.ne_empty, hlone, hform, hword] at h
  · rintro ⟨hlone, hform, hword⟩
    have hempty : name ≠ "" := by
      rintro rfl
      exact absurd hform (by decide)
    simp [IsIdentifier, identifierFault?, hempty, hlone, hform, hword]

theorem isIdentifierStart_toLower {c : Char} (h : isIdentifierStart c = true) :
    isIdentifierStart c.toLower = true := by
  cases hupper : c.isUpper with
  | false => rwa [toLower_of_not_isUpper hupper]
  | true =>
    have halpha : c.toLower.isAlpha = true := Bool.or_eq_true_iff.2 (.inr (isLower_toLower hupper))
    exact Bool.or_eq_true_iff.2 (.inl halpha)

theorem hasIdentifierForm_snakeChars {cs : List Char} (h : hasIdentifierForm cs = true) :
    hasIdentifierForm (snakeChars none cs) = true := by
  cases cs with
  | nil => exact h
  | cons c cs =>
    obtain ⟨hstart, hparts⟩ := Bool.and_eq_true_iff.1 h
    rw [snakeChars_cons fun _ => rfl]
    refine Bool.and_eq_true_iff.2 ⟨isIdentifierStart_toLower hstart, List.all_eq_true.2 ?_⟩
    exact isIdentifierPart_of_mem_snakeChars (List.all_eq_true.1 hparts) (some c)

/-- Only a lone underscore becomes a lone underscore. -/
theorem snakeCase_ne_underscore {name : String} (h : IsIdentifier name) :
    snakeCase name ≠ "_" := by
  intro hlone
  have hchars : snakeChars none name.toList = "_".toList := by
    rw [← hlone, snakeCase, String.toList_ofList]
  have hsources := filterMap_source?_snakeLetters none name.toList
  have hspelled := map_char_snakeLetters none name.toList
  rw [hchars] at hspelled
  obtain ⟨letter, hletters, hchar⟩ := List.map_eq_singleton_iff.1 hspelled
  rw [hletters] at hsources
  cases letter with
  | inserted => exact head?_snakeLetters_ne name.toList (by rw [hletters]; rfl)
  | kept c =>
    obtain rfl := eq_underscore_of_toLower hchar
    have hname : name = "_" := String.toList_inj.1 hsources.symm
    exact (isIdentifier_iff.1 h).1 hname

/-- The snake case of an identifier is one, unless it is reserved. -/
theorem isIdentifier_snakeCase_iff {name : String} (h : IsIdentifier name) :
    IsIdentifier (snakeCase name) ↔ snakeCase name ∉ reservedWords := by
  have hform : hasIdentifierForm (snakeCase name).toList = true := by
    rw [snakeCase, String.toList_ofList]
    exact hasIdentifierForm_snakeChars h.hasIdentifierForm
  rw [isIdentifier_iff]
  exact ⟨fun h' => h'.2.2, fun hword => ⟨snakeCase_ne_underscore h, hform, hword⟩⟩

/-- No reserved word starts like a hook. -/
theorem not_mem_reservedWords_of_append (rest : String) : "on_action_" ++ rest ∉ reservedWords := by
  have hwords : reservedWords.all
      (fun word => !"on_action_".toList.isPrefixOf word.toList) = true := by
    decide
  intro hmem
  have hstart : "on_action_".toList.isPrefixOf ("on_action_" ++ rest).toList = true := by
    rw [String.toList_append, List.isPrefixOf_iff_prefix]
    exact List.prefix_append _ _
  have hnot := List.all_eq_true.1 hwords _ hmem
  rw [hstart] at hnot
  cases hnot

theorem isIdentifier_hookName {action : String} (h : IsIdentifier action) :
    IsIdentifier (hookName action) := by
  have hparts := isIdentifierPart_of_mem_hookName h
  have hcons : (hookName action).toList = 'o' :: ("n_action_" ++ snakeCase action).toList := by
    rw [hookName, String.toList_append, String.toList_append]
    rfl
  have hform : hasIdentifierForm (hookName action).toList = true := by
    rw [hcons] at hparts ⊢
    have hstart : isIdentifierStart 'o' = true := by decide
    refine Bool.and_eq_true_iff.2 ⟨hstart, List.all_eq_true.2 fun c hc => ?_⟩
    exact hparts c (List.mem_cons_of_mem _ hc)
  refine isIdentifier_iff.2 ⟨?_, hform, not_mem_reservedWords_of_append _⟩
  intro hlone
  rw [hlone] at hcons
  exact absurd (List.head_eq_of_cons_eq hcons) (by decide)

/-! ## The conversion -/

/-- What the snake case of a name has to do with the name. -/
structure SnakeCaseOf (name snake : String) : Prop where
  /-- there are no capitals -/
  lowered : ∀ c ∈ snake.toList, c.isUpper = false
  /-- there is nothing more to convert -/
  fixed : snakeCase snake = snake
  /-- but for underscores it is the name in small letters -/
  letters : snake.toList.filter (· ≠ '_') = name.toLower.toList.filter (· ≠ '_')
  /-- it is written from letters of which some are put in -/
  spelled : (snakeLetters none name.toList).map Letter.char = snake.toList
  /-- the other letters are the name -/
  sources : (snakeLetters none name.toList).filterMap Letter.source? = name.toList
  /-- an underscore that is put in is not first -/
  first : (snakeLetters none name.toList).head? ≠ some .inserted
  /-- nor is it last -/
  last : (snakeLetters none name.toList).getLast? ≠ some .inserted
  /-- nor is it next to another underscore -/
  apart : (snakeLetters none name.toList).IsChain Letter.Apart
  /-- the underscores in front are those of the name -/
  leading : snake.toList.takeWhile (· = '_') = name.toList.takeWhile (· = '_')
  /-- and so are those that stand side by side -/
  pairs : underscorePairs 0 snake.toList = underscorePairs 0 name.toList
  /-- a hook can be called after an identifier -/
  hook : IsIdentifier name → IsIdentifier ("on_action_" ++ snake)
  /-- and so can a module, unless the word is reserved -/
  identifier : IsIdentifier name → (IsIdentifier snake ↔ snake ∉ reservedWords)

/-- **Snake case is a sound conversion of names.** -/
theorem snakeCaseOf_snakeCase (name : String) : SnakeCaseOf name (snakeCase name) := by
  have hchars : (snakeCase name).toList = snakeChars none name.toList := String.toList_ofList
  have hspelled := map_char_snakeLetters none name.toList
  have hsources := filterMap_source?_snakeLetters none name.toList
  have hlowered : ∀ c ∈ snakeChars none name.toList, c.isUpper = false := fun _ hc =>
    not_isUpper_of_mem_snakeChars hc
  refine
    { lowered := by rwa [hchars]
      fixed := ?_
      letters := ?_
      spelled := by rw [hchars, hspelled]
      sources := hsources
      first := head?_snakeLetters_ne name.toList
      last := getLast?_snakeLetters_ne none name.toList
      apart := isChain_snakeLetters none name.toList
      leading := by rw [hchars, takeWhile_snakeChars fun _ => rfl]
      pairs := by rw [hchars, underscorePairs_snakeChars]
      hook := isIdentifier_hookName
      identifier := isIdentifier_snakeCase_iff }
  · apply String.toList_inj.1
    rw [snakeCase, String.toList_ofList, hchars, snakeChars_of_not_isUpper hlowered]
  · have hsmall : name.toLower.toList = name.toList.map Char.toLower := String.toList_map
    rw [hchars, ← hspelled, filter_map_char, hsources, hsmall]

/-- In `HTTPServer2Go` one word is found by the end of a row of capitals and one by a digit, and the
hook of such an action can be called after it.  `Fn` is an identifier whose snake case is
reserved. -/
theorem snakeCaseOf_server :
    snakeCase "HTTPServer2Go" = "http_server2_go" ∧ IsIdentifier "HTTPServer2Go" ∧
      IsIdentifier ("on_action_" ++ snakeCase "HTTPServer2Go") ∧
      IsIdentifier "Fn" ∧ ¬ IsIdentifier (snakeCase "Fn") := by
  have hserver : IsIdentifier "HTTPServer2Go" := by decide
  have hword : IsIdentifier "Fn" := by decide
  have hreserved : snakeCase "Fn" ∈ reservedWords := by decide
  refine ⟨by decide, hserver, (snakeCaseOf_snakeCase _).hook hserver, hword, fun h => ?_⟩
  exact ((snakeCaseOf_snakeCase "Fn").identifier hword).1 h hreserved

end Statechart.Source
