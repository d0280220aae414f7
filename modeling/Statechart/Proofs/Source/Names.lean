import Statechart.Source.Names
set_option autoImplicit false

/-!
# Source: the names that pass

What the checks on names establish.  For the dispatch, states, events and actions are identifiers, and
different actions have different hooks (`UsableNames`).  For the module, the class is an identifier
that the module does not use otherwise (`ModuleNames`).  An identifier has only letters, digits and
underscores, which keeps it apart from the punctuation it is written between.
-/

namespace Statechart.Source

/-! ## Identifiers -/

theorem isIdentifierPart_of_isIdentifierStart {c : Char} (h : isIdentifierStart c = true) :
    isIdentifierPart c = true := by
  rcases Bool.or_eq_true_iff.1 h with halpha | hunderscore
  · have halphanum : c.isAlphanum = true := Bool.or_eq_true_iff.2 (Or.inl halpha)
    exact Bool.or_eq_true_iff.2 (Or.inl halphanum)
  · exact Bool.or_eq_true_iff.2 (Or.inr hunderscore)

theorem IsIdentifier.hasIdentifierForm {name : String} (h : IsIdentifier name) :
    hasIdentifierForm name.toList = true := by
  unfold IsIdentifier identifierFault? at h
  split at h
  · cases h
  split at h
  · cases h
  split at h
  · cases h
  rename_i hform
  simpa using hform

/-- All characters of an identifier can continue one. -/
theorem IsIdentifier.isIdentifierPart {name : String} (h : IsIdentifier name) :
    ∀ c ∈ name.toList, isIdentifierPart c = true := by
  have hform := h.hasIdentifierForm
  cases hcs : name.toList with
  | nil => exact fun _ hc => nomatch hc
  | cons c cs =>
    rw [hcs, Source.hasIdentifierForm, Bool.and_eq_true] at hform
    intro d hd
    rcases List.mem_cons.1 hd with rfl | hd
    · exact isIdentifierPart_of_isIdentifierStart hform.1
    · exact List.all_eq_true.1 hform.2 d hd

/-- No other character stands in an identifier. -/
theorem IsIdentifier.not_mem {name : String} (h : IsIdentifier name) {c : Char}
    (hc : Source.isIdentifierPart c = false) : c ∉ name.toList := by
  intro hmem
  rw [h.isIdentifierPart c hmem] at hc
  exact nomatch hc

theorem IsIdentifier.ne_empty {name : String} (h : IsIdentifier name) : name ≠ "" := by
  rintro rfl
  exact absurd h (by decide)

/-! ## Hooks -/

theorem isLower_toLower {c : Char} (h : c.isUpper = true) : c.toLower.isLower = true := by
  have hcase : c.val ≥ 'A'.val ∧ c.val ≤ 'Z'.val := of_decide_eq_true h
  have hbounds : 65 ≤ c.val.toNat ∧ c.val.toNat ≤ 90 := by
    simpa [UInt32.le_iff_toNat_le] using hcase
  have hsum : (c.val + ('a'.val - 'A'.val)).toNat = (c.val.toNat + 32) % 2 ^ 32 :=
    UInt32.toNat_add _ _
  have hval : c.toLower.val.toNat = c.val.toNat + 32 := by
    unfold Char.toLower
    rw [dif_pos hcase]
    exact hsum.trans (Nat.mod_eq_of_lt (by omega))
  have hsmall : c.toLower.val ≥ 'a'.val ∧ c.toLower.val ≤ 'z'.val := by
    simp only [ge_iff_le, UInt32.le_iff_toNat_le, hval]
    exact ⟨Nat.add_le_add_right hbounds.1 32, Nat.add_le_add_right hbounds.2 32⟩
  exact Bool.and_eq_true_iff.2 ⟨decide_eq_true hsmall.1, decide_eq_true hsmall.2⟩

theorem isIdentifierPart_toLower {c : Char} (h : c.isUpper = true) :
    isIdentifierPart c.toLower = true := by
  have halpha : c.toLower.isAlpha = true := Bool.or_eq_true_iff.2 (Or.inr (isLower_toLower h))
  have halphanum : c.toLower.isAlphanum = true := Bool.or_eq_true_iff.2 (Or.inl halpha)
  exact Bool.or_eq_true_iff.2 (Or.inl halphanum)

/-- The snake case of characters of an identifier has only such characters. -/
theorem isIdentifierPart_of_mem_snakeChars {cs : List Char}
    (h : ∀ c ∈ cs, isIdentifierPart c = true) (previous : Option Char) :
    ∀ c ∈ snakeChars previous cs, isIdentifierPart c = true := by
  induction cs generalizing previous with
  | nil => exact fun _ hc => nomatch hc
  | cons d ds ih =>
    have hrest := ih (fun c hc => h c (List.mem_cons_of_mem _ hc)) (some d)
    intro c hc
    unfold snakeChars at hc
    split at hc
    case isTrue hupper =>
      rcases List.mem_append.1 hc with hunderscore | hc
      · split at hunderscore
        · rw [List.mem_singleton.1 hunderscore]
          rfl
        · exact nomatch hunderscore
      · rcases List.mem_cons.1 hc with rfl | hc
        · exact isIdentifierPart_toLower hupper
        · exact hrest c hc
    case isFalse =>
      rcases List.mem_cons.1 hc with rfl | hc
      · exact h c List.mem_cons_self
      · exact hrest c hc

/-- The hook of an action that is an identifier has only characters of an identifier. -/
theorem isIdentifierPart_of_mem_hookName {action : String} (h : IsIdentifier action) :
    ∀ c ∈ (hookName action).toList, isIdentifierPart c = true := by
  have hfront : "on_action_".toList.all isIdentifierPart = true := by decide
  intro c hc
  unfold hookName snakeCase at hc
  rcases List.mem_append.1 (String.toList_append ▸ hc) with hc | hc
  · exact List.all_eq_true.1 hfront c hc
  · rw [String.toList_ofList] at hc
    exact isIdentifierPart_of_mem_snakeChars h.isIdentifierPart none c hc

/-! ## The checks -/

theorem checkIdentifier_eq_ok {kind name : String} (h : checkIdentifier kind name = .ok ()) :
    IsIdentifier name := by
  unfold checkIdentifier at h
  split at h
  · exact nomatch h
  · assumption

/-- A check of every member of a list that passes has passed for each of them. -/
theorem checkIdentifier_of_forM {kind : String} {names : List String}
    (h : names.forM (checkIdentifier kind) = .ok ()) : ∀ name ∈ names, IsIdentifier name := by
  induction names with
  | nil => exact fun _ hname => nomatch hname
  | cons first rest ih =>
    rw [List.forM_eq_forM, List.forM_cons] at h
    cases hfirst : checkIdentifier kind first with
    | error fault =>
      rw [hfirst] at h
      exact nomatch h
    | ok _ =>
      rw [hfirst] at h
      intro name hname
      rcases List.mem_cons.1 hname with rfl | hname
      · exact checkIdentifier_eq_ok hfirst
      · exact ih h name hname

/-- Actions that pass are identifiers, and different ones have different hooks, which also differ
from the hooks of the actions before. -/
theorem checkActions_eq_ok {earlier actions : List String}
    (h : checkActions earlier actions = .ok ()) :
    (∀ action ∈ actions, IsIdentifier action) ∧
      (∀ a ∈ actions, ∀ b ∈ actions, hookName a = hookName b → a = b) ∧
      ∀ a ∈ earlier, ∀ b ∈ actions, hookName a ≠ hookName b := by
  induction actions generalizing earlier with
  | nil => simp
  | cons action rest ih =>
    unfold checkActions at h
    split at h
    · cases h
    rename_i hok
    split at h
    · cases h
    rename_i hnone
    obtain ⟨hnames, hhooks, hapart⟩ := ih h
    have hearlier : ∀ a ∈ earlier, hookName a ≠ hookName action := by
      intro a ha
      simpa using List.find?_eq_none.1 hnone a ha
    have hrest : ∀ b ∈ rest, hookName action ≠ hookName b := hapart action (by simp)
    refine ⟨?_, ?_, ?_⟩
    · intro name hname
      rcases List.mem_cons.1 hname with rfl | hname
      · exact checkIdentifier_eq_ok hok
      · exact hnames name hname
    · intro a ha b hb heq
      rcases List.mem_cons.1 ha with rfl | hain
      · rcases List.mem_cons.1 hb with rfl | hbin
        · rfl
        · exact absurd heq (hrest b hbin)
      · rcases List.mem_cons.1 hb with rfl | hbin
        · exact absurd heq.symm (hrest a hain)
        · exact hhooks a hain b hbin heq
    · intro a ha b hb
      rcases List.mem_cons.1 hb with rfl | hb
      · exact hearlier a ha
      · exact hapart a (List.mem_append_left _ ha) b hb

/-- The names of a chart that stand in the dispatch of its generated source. -/
structure UsableNames (c : Chart) : Prop where
  state : ∀ id ∈ c.stateIds, IsIdentifier id
  event : ∀ event ∈ c.events, IsIdentifier event
  action : ∀ action ∈ c.actions, IsIdentifier action
  /-- different actions have different hooks -/
  hook : ∀ a ∈ c.actions, ∀ b ∈ c.actions, hookName a = hookName b → a = b

/-- Names that pass are usable. -/
theorem usableNames_of_checkNames {c : Chart} {options : SourceOptions}
    (h : checkNames c options = .ok ()) : UsableNames c := by
  unfold checkNames at h
  simp only [bind, Except.bind] at h
  split at h
  · cases h
  split at h
  · cases h
  split at h
  · cases h
  rename_i hstates
  split at h
  · cases h
  rename_i hevents
  obtain ⟨hactions, hhooks, _⟩ := checkActions_eq_ok h
  exact ⟨checkIdentifier_of_forM hstates, checkIdentifier_of_forM hevents, hactions, hhooks⟩

/-- The names around the machine of the generated source. -/
structure ModuleNames (c : Chart) (options : SourceOptions) : Prop where
  className : IsIdentifier c.className
  /-- the module declares nothing else under the name of the class -/
  not_generated : c.className ∉ generatedItems
  /-- nor does it refer to anything else by it -/
  not_referenced : c.className ∉ referencedNames
  module : IsIdentifier (moduleName c.className)
  package : ∀ segment ∈ packages c options, IsIdentifier segment

theorem checkClass_eq_ok {className : String} (h : checkClass className = .ok ()) :
    IsIdentifier className ∧ className ∉ generatedItems ∧ className ∉ referencedNames ∧
      IsIdentifier (moduleName className) := by
  unfold checkClass at h
  cases hclass : checkIdentifier "class" className with
  | error fault =>
    rw [hclass] at h
    exact nomatch h
  | ok _ =>
    rw [hclass] at h
    by_cases hitem : className ∈ generatedItems
    · simp [hitem, bind, Except.bind, throw, throwThe, MonadExceptOf.throw] at h
    by_cases hname : className ∈ referencedNames
    · simp [hitem, hname, bind, Except.bind, throw, throwThe, MonadExceptOf.throw] at h
    simp only [bind, Except.bind, hitem, hname, if_false] at h
    exact ⟨checkIdentifier_eq_ok hclass, hitem, hname, checkIdentifier_eq_ok h⟩

/-- The class that passes can stand in the module. -/
theorem moduleNames_of_checkNames {c : Chart} {options : SourceOptions}
    (h : checkNames c options = .ok ()) : ModuleNames c options := by
  unfold checkNames at h
  simp only [bind, Except.bind] at h
  split at h
  · cases h
  rename_i hclass
  split at h
  · cases h
  rename_i hpackages
  obtain ⟨hident, hitem, hname, hmodule⟩ := checkClass_eq_ok hclass
  exact ⟨hident, hitem, hname, hmodule, checkIdentifier_of_forM hpackages⟩

end Statechart.Source
