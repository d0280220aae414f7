import Statechart.Proofs.Source.Dispatch
import Statechart.Proofs.Source.Scopes
set_option autoImplicit false

/-!
# Source: clashes

Which names of generated source are apart.  The checks keep the class apart from the other items of
the module and the hooks apart from each other.  They do not compare states and events with what the
enumerations declare beside their variants, so that a chart may use a name that clashes there
(`not_apart_siren`); `apart_iff` says which charts do not.
-/

namespace Statechart.Source

/-- No scope declares a name twice, and the array of all variants is reached through each of the two
enumerations. -/
structure Scopes.Apart (scopes : Scopes) : Prop where
  items : (scopes.items.map (·.name)).Nodup
  hooks : (scopes.hooks.map (·.name)).Nodup
  state : (scopes.state.map (·.name)).Nodup
  event : (scopes.event.map (·.name)).Nodup
  stateAll : denoted? scopes.state "ALL" = some ⟨"const", "ALL"⟩
  eventAll : denoted? scopes.event "ALL" = some ⟨"const", "ALL"⟩

theorem map_name_variants (variants : List String) :
    (variants.map (Declaration.mk "variant")).map (·.name) = variants := by
  rw [List.map_map]
  exact List.map_id _

section Enumeration

variable {variants : List String} (hvariants : variants.Nodup) {associated : List Declaration}

include hvariants in
/-- Names that are reached through an enumeration are apart if no variant is called like something
that is associated with it. -/
theorem nodup_enumeration_iff (hassociated : (associated.map (·.name)).Nodup) :
    ((variants.map (Declaration.mk "variant") ++ associated).map (·.name)).Nodup ↔
      ∀ v ∈ variants, v ∉ associated.map (·.name) := by
  rw [List.map_append, map_name_variants, List.nodup_append]
  constructor
  · rintro ⟨_, _, hne⟩ v hv hmem
    exact hne v hv v hmem rfl
  · intro hne
    exact ⟨hvariants, hassociated, fun v hv name hname heq => hne v hv (heq ▸ hname)⟩

/-- What is associated with an enumeration is reached if no variant has its name. -/
theorem denoted?_of_not_mem {name : String} (h : name ∉ variants) :
    denoted? (variants.map (⟨"variant", ·⟩) ++ associated) name = denoted? associated name := by
  unfold denoted?
  rw [List.find?_append, List.find?_eq_none.2, Option.none_or]
  intro declaration hdeclaration
  obtain ⟨v, hv, rfl⟩ := List.mem_map.1 hdeclaration
  have hne : v ≠ name := fun heq => h (heq ▸ hv)
  simp [hne]

end Enumeration

theorem nodup_orderedSet (names : List String) : (Text.orderedSet names).Nodup :=
  (Text.pairwise_orderedSet names).imp String.ne_of_lt

section Names

variable {c : Chart} {options : SourceOptions}

/-- The class is called like no other item. -/
theorem nodup_items (hm : ModuleNames c options) :
    ((chartScopes c).items.map (·.name)).Nodup := by
  have hfixed : ∀ name ∈ ["Cell", "fmt", "FromStr", "State", "Event", "StateError", "DebugLogger",
      "Hooks", "Lifecycle", "PushGuard"], name ∈ generatedItems ∨ name ∈ referencedNames := by
    decide
  have hnames : (chartScopes c).items.map (·.name) = ["Cell", "fmt", "FromStr", "State", "Event",
      "StateError", "DebugLogger", "Hooks", "Lifecycle", "PushGuard"] ++ [c.className] := rfl
  rw [hnames, List.nodup_append]
  refine ⟨by decide, by simp, ?_⟩
  rintro name hname className hclass rfl
  rw [List.mem_singleton.1 hclass] at hname
  rcases hfixed _ hname with hitem | hname
  · exact hm.not_generated hitem
  · exact hm.not_referenced hname

/-- The hooks are called differently, and none like the method for changes of state. -/
theorem nodup_hooks (hn : UsableNames c) : ((chartScopes c).hooks.map (·.name)).Nodup := by
  have hnames : (chartScopes c).hooks.map (·.name) =
      "on_state_change" :: c.actions.map hookName := by
    simp [chartScopes, Function.comp_def]
  have hactions : (c.actions.map hookName).Nodup :=
    List.pairwise_map.2 ((nodup_orderedSet _).imp_of_mem fun ha hb hne heq =>
      hne (hn.hook _ ha _ hb heq))
  rw [hnames, List.nodup_cons]
  refine ⟨?_, hactions⟩
  intro hmem
  obtain ⟨action, _, heq⟩ := List.mem_map.1 hmem
  exact append_ne (by decide) heq

/-- The names of a chart are apart exactly if no state and no event is called like something that is
associated with its enumeration. -/
theorem apart_iff (hc : c.WellFormed) (hn : UsableNames c) (hm : ModuleNames c options) :
    (chartScopes c).Apart ↔ (∀ id ∈ c.stateIds, id ∉ ["ALL", "name", "is_terminal"]) ∧
      ∀ event ∈ c.events, event ∉ ["ALL", "name"] := by
  have hstate : ((chartScopes c).state.map (·.name)).Nodup ↔
      ∀ id ∈ c.stateIds, id ∉ ["ALL", "name", "is_terminal"] :=
    nodup_enumeration_iff hc.nodup_ids (by decide)
  have hevent : ((chartScopes c).event.map (·.name)).Nodup ↔
      ∀ event ∈ c.events, event ∉ ["ALL", "name"] :=
    nodup_enumeration_iff (nodup_orderedSet _) (by decide)
  constructor
  · intro h
    exact ⟨hstate.1 h.state, hevent.1 h.event⟩
  · rintro ⟨hids, hevents⟩
    exact {
      items := nodup_items hm
      hooks := nodup_hooks hn
      state := hstate.2 hids
      event := hevent.2 hevents
      stateAll := denoted?_of_not_mem fun hmem => hids _ hmem (by decide)
      eventAll := denoted?_of_not_mem fun hmem => hevents _ hmem (by decide) }

/-- What is generated is the text of a chart whose names pass. -/
theorem checkNames_of_generate {text : String} (h : generate c options = .ok text) :
    checkNames c options = .ok () := by
  unfold generate at h
  split at h
  · exact nomatch h
  · assumption

end Names

/-- **Names in generated source.**  The scopes of the module are read from its text.  Items are
called differently, and so are hooks; the names that are reached through the two enumerations are
apart for the charts that call no state and no event like something that the enumeration declares
itself. -/
theorem scopes_of_generate {c : Chart} (hd : c.IsDocument) {options : SourceOptions} {text : String}
    (h : generate c options = .ok text) :
    scopes? (modulePath c options) text = some (chartScopes c) ∧
      ((chartScopes c).items.map (·.name)).Nodup ∧ ((chartScopes c).hooks.map (·.name)).Nodup ∧
      ((chartScopes c).Apart ↔ (∀ id ∈ c.stateIds, id ∉ ["ALL", "name", "is_terminal"]) ∧
        ∀ event ∈ c.events, event ∉ ["ALL", "name"]) := by
  have hm := moduleNames_of_checkNames (checkNames_of_generate h)
  obtain ⟨hn, rfl⟩ := generate_eq_ok h
  exact ⟨scopes?_sourceLines hm hd.wellFormed hn, nodup_items hm, nodup_hooks hn,
    apart_iff hd.wellFormed hn hm⟩

/-- The names in the source of the door are apart. -/
theorem scopes_of_generate_door :
    generate .door {} = .ok (renderLines (sourceLines .door {})) ∧
      scopes? (modulePath .door {}) (renderLines (sourceLines .door {})) =
        some (chartScopes .door) ∧ (chartScopes .door).Apart := by
  have hgenerate : generate .door {} = .ok (renderLines (sourceLines .door {})) := rfl
  obtain ⟨hscopes, _, _, hapart⟩ := scopes_of_generate Chart.isDocument_door hgenerate
  exact ⟨hgenerate, hscopes, hapart.2 (by decide)⟩

/-! ## A clash

The source of a chart with an event of this name is generated, but it asks the variant where it
means the array of all variants. -/

/-- The element tree of a siren. -/
def sirenElement : Markup.Element :=
  ⟨"scxml", [⟨"name", "Siren"⟩],
    [⟨"state", [⟨"id", "Off"⟩], [⟨"transition", [⟨"event", "ALL"⟩, ⟨"target", "On"⟩], []⟩]⟩,
      ⟨"state", [⟨"id", "On"⟩], []⟩]⟩

/-- The chart of a siren. -/
def siren : Chart where
  className := "Siren"
  package? := none
  initial := "Off"
  base? := none
  debug := false
  states := [⟨"Off", [⟨"ALL", "On", []⟩]⟩, ⟨"On", []⟩]

theorem isDocument_siren : siren.IsDocument :=
  have hread : Chart.ofElement sirenElement = .ok siren := rfl
  .read hread

/-- An event can clash with the array of all variants. -/
theorem not_apart_siren :
    generate siren {} = .ok (renderLines (sourceLines siren {})) ∧
      ∃ scopes, scopes? (modulePath siren {}) (renderLines (sourceLines siren {})) = some scopes ∧
        ¬ (scopes.event.map (·.name)).Nodup ∧
        denoted? scopes.event "ALL" = some ⟨"variant", "ALL"⟩ := by
  have hgenerate : generate siren {} = .ok (renderLines (sourceLines siren {})) := rfl
  have hnames : checkNames siren {} = .ok () := checkNames_of_generate hgenerate
  have hscopes := scopes?_sourceLines (moduleNames_of_checkNames hnames) isDocument_siren.wellFormed
    (usableNames_of_checkNames hnames)
  exact ⟨hgenerate, _, hscopes, by decide, by decide⟩

end Statechart.Source
