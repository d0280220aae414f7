import Statechart.Proofs.Source.Clashes
import Statechart.Proofs.Source.Emission
set_option autoImplicit false

/-!
# Source: the first fault of a name

`nameFaults` lists everything that is wrong with the names of a chart, in the order in which the
names are gone through, and does not stop anywhere.  Source is generated exactly if the list is
empty (`NamesUsable` says the same name by name), and else its first entry is reported.

Emission looks the hooks up in a table while it goes through the transitions, and could fail at an
action that is missing there.  `emitSource_eq` says that it does not, so the only errors are the
messages of these faults.
-/

namespace Statechart.Source

/-! ## The first of several faults -/

/-- The verdict on names of which all faults are known: the first of them, if there are any. -/
def firstFault : List NameFault → Except NameFault Unit
  | [] => .ok ()
  | fault :: _ => .error fault

theorem firstFault_append (faults more : List NameFault) :
    firstFault (faults ++ more) = (firstFault faults >>= fun _ => firstFault more) := by
  cases faults with
  | nil => rfl
  | cons fault faults => rfl

/-- A search reports what it finds. -/
theorem firstFault_map_filter {α : Type} (p : α → Bool) (report : α → NameFault) (xs : List α) :
    firstFault ((xs.filter p).map report) =
      match xs.find? p with
      | some x => .error (report x)
      | none => .ok () := by
  rw [← List.head?_filter]
  cases xs.filter p with
  | nil => rfl
  | cons first rest => rfl

/-! ## All faults -/

/-- What is wrong with a name that has to be an identifier. -/
def identifierFaults (kind name : String) : List NameFault :=
  ((identifierFault? name).map (.invalid kind name)).toList

/-- What is wrong with the name of a class. -/
def classFaults (className : String) : List NameFault :=
  identifierFaults "class" className
    ++ (if className ∈ generatedItems then [.generatedItem className] else [])
    ++ (if className ∈ referencedNames then [.referencedName className] else [])
    ++ identifierFaults "module" (snakeCase className)

/-- The parts of the package name between its dots, where packages become modules. -/
def packageSegments (c : Chart) (options : SourceOptions) : List String :=
  (if options.nestPackages then c.package?.toList else []).flatMap fun package =>
    (package.toList.splitOn '.').map String.ofList

/-- What is wrong with one of several actions: it is no identifier, or an earlier one has the same
snake case. -/
def actionFaults (actions : List String) (action : String) : List NameFault :=
  identifierFaults "action" action
    ++ ((actions.takeWhile (· ≠ action)).filter (snakeCase · = snakeCase action)).map fun other =>
      .sharedHook other action (hookName action)

/-- Everything that is wrong with the names of a chart. -/
def nameFaults (c : Chart) (options : SourceOptions) : List NameFault :=
  classFaults c.className
    ++ (packageSegments c options).flatMap (identifierFaults "package segment")
    ++ c.stateIds.flatMap (identifierFaults "state")
    ++ c.events.flatMap (identifierFaults "event")
    ++ c.actions.flatMap (actionFaults c.actions)

/-- The names of a chart can all be used. -/
structure NamesUsable (c : Chart) (options : SourceOptions) : Prop where
  className : IsIdentifier c.className
  not_generated : c.className ∉ generatedItems
  not_referenced : c.className ∉ referencedNames
  module : IsIdentifier (snakeCase c.className)
  package : options.nestPackages = true → ∀ package, c.package? = some package →
    ∀ segment ∈ package.toList.splitOn '.', IsIdentifier (String.ofList segment)
  state : ∀ state ∈ c.states, IsIdentifier state.id
  event : ∀ t ∈ c.transitions, IsIdentifier t.event
  action : ∀ t ∈ c.transitions, ∀ action ∈ t.actions, IsIdentifier action
  /-- different actions have different hooks -/
  apart : ∀ a ∈ c.actions, ∀ b ∈ c.actions, a ≠ b → snakeCase a ≠ snakeCase b

/-! ## The checks report the first fault -/

theorem identifierFaults_eq_nil_iff {kind name : String} :
    identifierFaults kind name = [] ↔ IsIdentifier name := by
  unfold identifierFaults IsIdentifier
  cases identifierFault? name <;> simp

theorem checkIdentifier_eq (kind name : String) :
    checkIdentifier kind name = firstFault (identifierFaults kind name) := by
  unfold checkIdentifier identifierFaults
  cases identifierFault? name with
  | none => rfl
  | some reason => rfl

theorem forM_checkIdentifier_eq (kind : String) (names : List String) :
    names.forM (checkIdentifier kind) =
      firstFault (names.flatMap (identifierFaults kind)) := by
  induction names with
  | nil => rfl
  | cons name names ih =>
    rw [List.forM_eq_forM] at ih
    rw [List.forM_eq_forM, List.forM_cons, List.flatMap_cons, firstFault_append,
      ← checkIdentifier_eq, ih]

theorem checkClass_eq (className : String) :
    checkClass className = firstFault (classFaults className) := by
  unfold checkClass classFaults moduleName
  simp only [firstFault_append, ← checkIdentifier_eq]
  cases checkIdentifier "class" className with
  | error fault => rfl
  | ok =>
    by_cases hitem : className ∈ generatedItems
    · rw [if_pos hitem, if_pos hitem]
      rfl
    · rw [if_neg hitem, if_neg hitem]
      by_cases hname : className ∈ referencedNames
      · rw [if_pos hname, if_pos hname]
        rfl
      · rw [if_neg hname, if_neg hname]
        rfl

/-- The segments of a package name are what stands between its dots. -/
theorem segments_eq_splitOn (cs : List Char) : segments cs = cs.splitOn '.' := by
  unfold List.splitOn
  induction cs with
  | nil => rfl
  | cons c cs ih =>
    rw [segments, List.splitOnP_cons_eq_if_modifyHead, ih]
    by_cases h : c = '.'
    · have hdot : c = Chart.nameSeparator := h
      rw [if_pos hdot, if_pos (beq_iff_eq.2 h)]
    · have hdot : c ≠ Chart.nameSeparator := h
      rw [if_neg hdot, if_neg (mt beq_iff_eq.1 h)]
      cases hsplit : List.splitOnP (· == '.') cs with
      | nil => exact absurd hsplit (List.splitOnP_ne_nil _ _)
      | cons first rest => rfl

theorem packages_eq (c : Chart) (options : SourceOptions) :
    packages c options = packageSegments c options := by
  unfold packages packageSegments
  cases c.package? with
  | none => cases options.nestPackages <;> rfl
  | some package =>
    cases hnest : options.nestPackages with
    | false => simp
    | true => simp [segments_eq_splitOn]

/-- Among different actions the earlier ones are those that have been gone through. -/
theorem takeWhile_earlier {earlier rest : List String} {action : String}
    (h : (earlier ++ action :: rest).Nodup) :
    (earlier ++ action :: rest).takeWhile (· ≠ action) = earlier := by
  have hnot : action ∉ earlier := by
    intro hmem
    exact (List.nodup_append.1 h).2.2 action hmem action List.mem_cons_self rfl
  rw [List.takeWhile_append_of_pos, List.takeWhile_cons_of_neg (by simp), List.append_nil]
  intro other hother
  exact decide_eq_true (ne_of_mem_of_not_mem hother hnot)

theorem hookName_eq_iff {a b : String} : hookName a = hookName b ↔ snakeCase a = snakeCase b := by
  unfold hookName
  rw [← String.toList_inj, String.toList_append, String.toList_append, List.append_cancel_left_eq,
    String.toList_inj]

/-- What is reported of an action when the `earlier` ones have been gone through. -/
theorem firstFault_actionFaults {earlier rest : List String} {action : String}
    (h : (earlier ++ action :: rest).Nodup) :
    firstFault (actionFaults (earlier ++ action :: rest) action) =
      (checkIdentifier "action" action >>= fun _ =>
        match earlier.find? (hookName · = hookName action) with
        | some other => .error (.sharedHook other action (hookName action))
        | none => .ok ()) := by
  have hsame : earlier.filter (snakeCase · = snakeCase action) =
      earlier.filter (hookName · = hookName action) :=
    List.filter_congr fun _ _ => decide_eq_decide.2 hookName_eq_iff.symm
  unfold actionFaults
  rw [firstFault_append, ← checkIdentifier_eq, takeWhile_earlier h, hsame, firstFault_map_filter]
  cases earlier.find? (hookName · = hookName action) with
  | some other => rfl
  | none => rfl

/-- The check of the actions reports the first fault of those that are left. -/
theorem checkActions_eq {earlier rest : List String} (h : (earlier ++ rest).Nodup) :
    checkActions earlier rest =
      firstFault (rest.flatMap (actionFaults (earlier ++ rest))) := by
  induction rest generalizing earlier with
  | nil => rfl
  | cons action rest ih =>
    rw [checkActions, List.flatMap_cons, firstFault_append, firstFault_actionFaults h]
    cases checkIdentifier "action" action with
    | error fault => rfl
    | ok =>
      cases earlier.find? (hookName · = hookName action) with
      | some other => rfl
      | none =>
        have hnext : earlier ++ action :: rest = earlier ++ [action] ++ rest :=
          List.append_cons earlier action rest
        rw [hnext] at h ⊢
        exact ih h

/-- The checks report the first fault. -/
theorem checkNames_eq (c : Chart) (options : SourceOptions) :
    checkNames c options = firstFault (nameFaults c options) := by
  have hactions : checkActions [] c.actions = firstFault (c.actions.flatMap (actionFaults c.actions)) :=
    checkActions_eq (nodup_orderedSet _)
  unfold checkNames nameFaults
  simp only [firstFault_append, ← forM_checkIdentifier_eq, ← checkClass_eq, ← packages_eq,
    ← hactions, bind_assoc]

theorem mem_packageSegments {c : Chart} {options : SourceOptions} {segment : String} :
    segment ∈ packageSegments c options ↔ options.nestPackages = true ∧
      ∃ package, c.package? = some package ∧
        ∃ part ∈ package.toList.splitOn '.', String.ofList part = segment := by
  unfold packageSegments
  cases options.nestPackages with
  | false => simp
  | true => simp

/-- An action that is an identifier and shares its snake case with no other has no fault. -/
theorem actionFaults_eq_nil {actions : List String} {action : String} (h : IsIdentifier action)
    (hapart : ∀ other ∈ actions, other ≠ action → snakeCase other ≠ snakeCase action) :
    actionFaults actions action = [] := by
  unfold actionFaults
  rw [identifierFaults_eq_nil_iff.2 h, List.nil_append, List.map_eq_nil_iff, List.filter_eq_nil_iff]
  intro other hother hsame
  have hne : other ≠ action := by
    have hall := List.all_eq_true.1 List.all_takeWhile other hother
    exact of_decide_eq_true hall
  exact hapart other (List.takeWhile_subset _ hother) hne (of_decide_eq_true hsame)

/-- No fault is listed exactly if all names can be used. -/
theorem nameFaults_eq_nil_iff {c : Chart} {options : SourceOptions} :
    nameFaults c options = [] ↔ NamesUsable c options := by
  constructor
  · intro hnone
    have hok : checkNames c options = .ok () := by
      rw [checkNames_eq, hnone]
      rfl
    have hn := usableNames_of_checkNames hok
    have hm := moduleNames_of_checkNames hok
    refine {
      className := hm.className
      not_generated := hm.not_generated
      not_referenced := hm.not_referenced
      module := hm.module
      package := ?_
      state := fun state hstate => hn.state _ (List.mem_map_of_mem hstate)
      event := fun t ht => hn.event_of_mem ht
      action := fun t ht action ha => hn.action _ (Chart.mem_actions.2 ⟨t, ht, ha⟩)
      apart := ?_ }
    · intro hnest package hpackage segment hsegment
      apply hm.package
      rw [packages_eq]
      exact mem_packageSegments.2 ⟨hnest, package, hpackage, segment, hsegment, rfl⟩
    · intro a ha b hb hne heq
      exact hne (hn.hook a ha b hb (hookName_eq_iff.2 heq))
  · intro h
    have hstates : ∀ id ∈ c.stateIds, IsIdentifier id := by
      intro id hid
      obtain ⟨state, hstate, rfl⟩ := List.mem_map.1 hid
      exact h.state state hstate
    have hevents : ∀ event ∈ c.events, IsIdentifier event := by
      intro event hevent
      obtain ⟨t, ht, rfl⟩ := Chart.mem_events.1 hevent
      exact h.event t ht
    have hsegments : ∀ segment ∈ packageSegments c options, IsIdentifier segment := by
      intro segment hsegment
      obtain ⟨hnest, package, hpackage, part, hpart, rfl⟩ := mem_packageSegments.1 hsegment
      exact h.package hnest package hpackage part hpart
    have hactions : ∀ action ∈ c.actions, actionFaults c.actions action = [] := by
      intro action hmem
      obtain ⟨t, ht, ha⟩ := Chart.mem_actions.1 hmem
      exact actionFaults_eq_nil (h.action t ht action ha) fun other hother hne =>
        h.apart other hother action hmem hne
    unfold nameFaults classFaults
    simp only [List.append_eq_nil_iff, List.flatMap_eq_nil_iff, identifierFaults_eq_nil_iff,
      if_neg h.not_generated, if_neg h.not_referenced]
    exact ⟨⟨⟨⟨⟨⟨⟨h.className, trivial⟩, trivial⟩, h.module⟩, hsegments⟩, hstates⟩, hevents⟩, hactions⟩

/-! ## Messages -/

theorem head?_append {front : String} {first : Char} (h : front.toList.head? = some first)
    (back : String) : (front ++ back).toList.head? = some first := by
  rw [String.toList_append, List.head?_append, h]
  rfl

/-- The first letters of the messages. -/
theorem NameFault.head?_message (fault : NameFault) :
    fault.message.toList.head? ∈ [some 'i', some 'c', some 'a'] := by
  have hclass : "class name ".toList.head? = some 'c' := by decide
  simp only [List.mem_cons, List.not_mem_nil, or_false]
  cases fault with
  | invalid kind name reason =>
    have hinvalid : "invalid ".toList.head? = some 'i' := by decide
    exact .inl (head?_append (head?_append (head?_append (head?_append (head?_append hinvalid _) _)
      _) _) _)
  | generatedItem className => exact .inr (.inl (head?_append (head?_append hclass _) _))
  | referencedName className => exact .inr (.inl (head?_append (head?_append hclass _) _))
  | sharedHook first second hook =>
    have hactions : "actions ".toList.head? = some 'a' := by decide
    exact .inr (.inr (head?_append (head?_append (head?_append (head?_append (head?_append hactions
      _) _) _) _) _))

/-- No fault of a name reads like the error of a missing hook. -/
theorem message_ne_missingHook (fault : NameFault) (action : String) :
    fault.message ≠ missingHook action := by
  have hmissing : (missingHook action).toList.head? = some 'n' := head?_append (by decide) _
  have hfault := fault.head?_message
  intro heq
  rw [heq, hmissing] at hfault
  exact absurd hfault (by decide)

/-- No error of emission is that of a missing hook. -/
theorem ne_missingHook_of_emitSource {c : Chart} {options : SourceOptions} {message : String}
    (h : emitSource c options = .error message) (action : String) : message ≠ missingHook action := by
  rw [emitSource_eq] at h
  cases hnames : checkNames c options with
  | ok _ =>
    rw [hnames] at h
    cases h
  | error fault =>
    rw [hnames] at h
    rw [← Except.error.inj h]
    exact message_ne_missingHook fault action

/-! ## Generation -/

theorem generate_eq (c : Chart) (options : SourceOptions) :
    generate c options =
      match (nameFaults c options).head? with
      | some fault => .error fault
      | none => .ok (renderLines (sourceLines c options)) := by
  unfold generate
  rw [checkNames_eq]
  cases nameFaults c options with
  | nil => rfl
  | cons fault faults => rfl

/-- **Generation succeeds exactly if all names can be used**, and else reports the first fault.

Names are gone through in this order: the class, the module, the packages, the states as the chart
lists them, and the events and the actions in code point order, each action first by itself and then
beside the earlier ones.  Every hook that the dispatch calls is found when it is looked up, so that
no fault is one of a missing hook.  When source is generated, every action of a transition has a
hook, and no two actions share one. -/
theorem generate_reports_first_fault (c : Chart) (options : SourceOptions) :
    ((∃ text, generate c options = .ok text) ↔ NamesUsable c options) ∧
    (∀ fault, generate c options = .error fault ↔
      (nameFaults c options).head? = some fault) ∧
    c.events.Pairwise (· < ·) ∧ c.actions.Pairwise (· < ·) ∧
    (emitSource c options).map (fun calls => (write calls).text) =
      (generate c options).mapError NameFault.message ∧
    (∀ message action, emitSource c options = .error message → message ≠ missingHook action) ∧
    (∀ state ∈ c.states, armsFrom (hookTable c) c.debug (localPattern state.id) state =
      .ok (localArms c.debug state)) ∧
    (∀ base, c.baseState? = some base → armsFrom (hookTable c) c.debug basePattern base =
      .ok (baseArms c.debug base)) ∧
    (∀ text, generate c options = .ok text →
      (∀ t ∈ c.transitions, ∀ action ∈ t.actions,
        ∃ hook, (hookTable c).lookup action = some hook) ∧
      ∀ a b hook, (hookTable c).lookup a = some hook → (hookTable c).lookup b = some hook →
        a = b) := by
  refine ⟨?_, ?_, Text.pairwise_orderedSet _, Text.pairwise_orderedSet _,
    map_write_emitSource c options, fun _ action h => ne_missingHook_of_emitSource h action,
    fun state hstate => armsFrom_hookTable hstate _,
    fun base hbase => armsFrom_hookTable (Chart.mem_states_of_baseState? hbase) _, ?_⟩
  · rw [← nameFaults_eq_nil_iff, generate_eq]
    cases nameFaults c options with
    | nil => exact ⟨fun _ => rfl, fun _ => ⟨_, rfl⟩⟩
    | cons fault faults => simp
  · intro fault
    rw [generate_eq]
    cases nameFaults c options with
    | nil => simp
    | cons first faults => simp
  · intro text htext
    have hn := usableNames_of_checkNames (checkNames_of_generate htext)
    refine ⟨?_, ?_⟩
    · intro t ht action haction
      exact ⟨_, lookup_hookTable.2 ⟨Chart.mem_actions.2 ⟨t, ht, haction⟩, rfl⟩⟩
    · intro a b hook ha hb
      obtain ⟨hamem, ha⟩ := lookup_hookTable.1 ha
      obtain ⟨hbmem, hb⟩ := lookup_hookTable.1 hb
      exact hn.hook a hamem b hbmem (ha.symm.trans hb)

end Statechart.Source
