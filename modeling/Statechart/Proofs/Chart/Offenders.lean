import Statechart.Proofs.Chart.Rules
set_option autoImplicit false

/-!
# The vocabulary of a tree

Every name in an element tree has its place: it stands on the element that a path of child positions
leads to, as the name of an attribute or as that of a direct child.  `Place.Before` is the order in
which the places are looked at, and `offence?` says what is wrong at one of them.  Neither knows of
the check, which goes down the tree and stops where something is wrong.

`offences` lists what is wrong in a tree with its places.  The list is in order and complete, so that
its first entry is the one at the first place (`isFirst_iff`), and the check reports it.
-/

namespace Statechart.Markup.Element

/-! ## Paths -/

theorem at?_cons (e : Element) (i : Nat) (path : List Nat) :
    e.at? (i :: path) = (e.children[i]?).bind (·.at? path) := by
  rw [at?]

theorem at?_append (e : Element) (path rest : List Nat) :
    e.at? (path ++ rest) = (e.at? path).bind (·.at? rest) := by
  induction path generalizing e with
  | nil => rfl
  | cons i path ih =>
    rw [List.cons_append, at?_cons, at?_cons, Option.bind_assoc]
    exact congrArg _ (funext fun child => ih child)

/-- The children of an element are one step further on. -/
theorem at?_concat (e : Element) (path : List Nat) (i : Nat) :
    e.at? (path ++ [i]) = (e.at? path).bind (·.children[i]?) := by
  rw [at?_append]
  refine congrArg _ (funext fun n => ?_)
  rw [at?_cons]
  exact Option.bind_fun_some _

mutual

/-- The element and everything inside it in document order, each with the path to it. -/
def nodes : Element → List (List Nat × Element)
  | ⟨name, attributes, children⟩ => ([], ⟨name, attributes, children⟩) :: nodesFrom 0 children

/-- The elements of siblings of which the first is child number `i`. -/
def nodesFrom (i : Nat) : List Element → List (List Nat × Element)
  | [] => []
  | e :: es => (nodes e).map (fun node => (i :: node.1, node.2)) ++ nodesFrom (i + 1) es

end

mutual

/-- Exactly the elements that paths lead to are listed. -/
theorem mem_nodes_iff (e n : Element) (path : List Nat) :
    (path, n) ∈ nodes e ↔ e.at? path = some n := by
  match e with
  | ⟨name, attributes, children⟩ =>
    rw [nodes, List.mem_cons, mem_nodesFrom_iff children n path 0]
    cases path with
    | nil => simp [at?, eq_comm]
    | cons i path =>
      rw [at?_cons]
      constructor
      · rintro (hroot | ⟨j, rest, hpath, hn⟩)
        · simp at hroot
        · obtain ⟨rfl, rfl⟩ : i = j ∧ path = rest := by simpa using hpath
          exact hn
      · exact fun hn => .inr ⟨i, path, by rw [Nat.zero_add], hn⟩

theorem mem_nodesFrom_iff (es : List Element) (n : Element) (path : List Nat) (i : Nat) :
    (path, n) ∈ nodesFrom i es ↔
      ∃ j rest, path = (i + j) :: rest ∧ (es[j]?).bind (·.at? rest) = some n := by
  match es with
  | [] => simp [nodesFrom]
  | e :: es =>
    have hfirst : (path, n) ∈ (nodes e).map (fun node => (i :: node.1, node.2)) ↔
        ∃ rest, path = i :: rest ∧ e.at? rest = some n := by
      simp only [List.mem_map, Prod.mk.injEq, Prod.exists]
      constructor
      · rintro ⟨rest, m, hm, rfl, rfl⟩
        exact ⟨rest, rfl, (mem_nodes_iff e m rest).1 hm⟩
      · rintro ⟨rest, rfl, hn⟩
        exact ⟨rest, n, (mem_nodes_iff e n rest).2 hn, rfl, rfl⟩
    rw [nodesFrom, List.mem_append, hfirst, mem_nodesFrom_iff es n path (i + 1)]
    constructor
    · rintro (⟨rest, rfl, hn⟩ | ⟨j, rest, rfl, hn⟩)
      · exact ⟨0, rest, rfl, hn⟩
      · exact ⟨j + 1, rest, by rw [Nat.add_assoc, Nat.add_comm 1 j], hn⟩
    · rintro ⟨j, rest, rfl, hn⟩
      cases j with
      | zero => exact .inl ⟨rest, rfl, hn⟩
      | succ j => exact .inr ⟨j, rest, by rw [Nat.add_assoc, Nat.add_comm 1 j], hn⟩

end

/-- Document order: an element comes before what is inside it, and what is inside a child comes
before the later children. -/
def PathBefore (path path' : List Nat) : Prop :=
  List.Lex (fun i j => i < j) path path'

mutual

/-- The listing is in document order. -/
theorem pairwise_nodes (e : Element) :
    (nodes e).Pairwise fun node node' => PathBefore node.1 node'.1 := by
  match e with
  | ⟨name, attributes, children⟩ =>
    rw [nodes, List.pairwise_cons]
    refine ⟨?_, pairwise_nodesFrom 0 children⟩
    rintro ⟨path, n⟩ hnode
    obtain ⟨j, rest, rfl, _⟩ := (mem_nodesFrom_iff children n path 0).1 hnode
    exact .nil

theorem pairwise_nodesFrom (i : Nat) (es : List Element) :
    (nodesFrom i es).Pairwise fun node node' => PathBefore node.1 node'.1 := by
  match es with
  | [] =>
    rw [nodesFrom]
    exact .nil
  | e :: es =>
    rw [nodesFrom, List.pairwise_append, List.pairwise_map]
    refine ⟨(pairwise_nodes e).imp fun h => .cons h, pairwise_nodesFrom (i + 1) es, ?_⟩
    rintro node hnode ⟨path, n⟩ hlater
    obtain ⟨first, _, rfl⟩ := List.mem_map.1 hnode
    obtain ⟨j, rest, rfl, _⟩ := (mem_nodesFrom_iff es n path (i + 1)).1 hlater
    exact .rel (by omega)

end

mutual

/-- The same tree with all attribute values left empty. -/
def withoutValues : Element → Element
  | ⟨name, attributes, children⟩ =>
    ⟨name, attributes.map fun a => ⟨a.name, ""⟩, withoutValuesAll children⟩

/-- The same trees with all attribute values left empty. -/
def withoutValuesAll : List Element → List Element
  | [] => []
  | e :: es => withoutValues e :: withoutValuesAll es

end

end Statechart.Markup.Element

namespace Statechart.Vocabulary

open Statechart.Markup

/-! ## Places -/

/-- Where a name stands in a tree. -/
inductive Place where
  /-- on an attribute of the element that the path leads to -/
  | attr (path : List Nat) (index : Nat)
  /-- on a direct child of the element that the path leads to -/
  | child (path : List Nat) (index : Nat)
  deriving DecidableEq, Repr

/-- The path to the element at which the name is looked at. -/
def Place.path : Place → List Nat
  | .attr path _ => path
  | .child path _ => path

/-- The order in which names are looked at: element by element in document order, and at each element
first its attributes and then its direct children. -/
inductive Place.Before : Place → Place → Prop where
  | element {p q : Place} (h : Element.PathBefore p.path q.path) : Before p q
  | attr {path : List Nat} {i j : Nat} (h : i < j) : Before (.attr path i) (.attr path j)
  | part (path : List Nat) (i j : Nat) : Before (.attr path i) (.child path j)
  | child {path : List Nat} {i j : Nat} (h : i < j) : Before (.child path i) (.child path j)

/-- What is wrong with the name of an attribute. -/
def attributeOffence? (a : Attribute) : Option Violation :=
  if a.name ∈ attributeNames then none else some (.unknownAttribute a.name)

/-- What is wrong with the name of an element. -/
def elementOffence? (e : Element) : Option Violation :=
  if e.name ∈ elementNames then none else some (.unknownElement e.name)

/-- What is wrong with the name at a place of a tree. -/
def offence? (e : Element) : Place → Option Violation
  | .attr path i => ((e.at? path).bind (·.attributes[i]?)).bind attributeOffence?
  | .child path i => ((e.at? path).bind (·.children[i]?)).bind elementOffence?

/-- The name at the place offends, and no name that is looked at before does. -/
structure IsFirst (e : Element) (place : Place) (violation : Violation) : Prop where
  offends : offence? e place = some violation
  before : ∀ earlier : Place, earlier.Before place → offence? e earlier = none

/-- All names in the tree are names of charts, but for that of the root, which is free. -/
structure KeepsVocabulary (e : Element) : Prop where
  attributes : ∀ path n, e.at? path = some n → ∀ a ∈ n.attributes, a.name ∈ attributeNames
  elements : ∀ path n, path ≠ [] → e.at? path = some n → n.name ∈ elementNames

/-! ## The order of places -/

theorem asymm_pathBefore {path path' : List Nat} (h : Element.PathBefore path path') :
    ¬ Element.PathBefore path' path := by
  induction h with
  | nil =>
    intro hback
    cases hback
  | rel hlt =>
    intro hback
    cases hback with
    | rel hgt => exact Nat.lt_asymm hlt hgt
    | cons => exact Nat.lt_irrefl _ hlt
  | cons _ ih =>
    intro hback
    cases hback with
    | rel hgt => exact Nat.lt_irrefl _ hgt
    | cons hrest => exact ih hrest

/-- No place comes before and after another. -/
theorem Place.Before.asymm {p q : Place} (h : p.Before q) : ¬ q.Before p := by
  have hsame : ∀ path, ¬ Element.PathBefore path path := fun _ hself =>
    asymm_pathBefore hself hself
  intro hback
  cases h with
  | element hpath =>
    cases hback with
    | element hpath' => exact asymm_pathBefore hpath hpath'
    | attr _ => exact hsame _ hpath
    | part _ _ _ => exact hsame _ hpath
    | child _ => exact hsame _ hpath
  | attr hlt =>
    cases hback with
    | element hpath => exact hsame _ hpath
    | attr hgt => exact Nat.lt_asymm hlt hgt
  | part path _ _ =>
    cases hback with
    | element hpath => exact hsame _ hpath
  | child hlt =>
    cases hback with
    | element hpath => exact hsame _ hpath
    | child hgt => exact Nat.lt_asymm hlt hgt

/-- The head of a list in strict order is the member that no other member comes before. -/
theorem head?_eq_some_iff_of_pairwise {α : Type} {before : α → α → Prop} {xs : List α}
    (hasymm : ∀ x y, before x y → ¬ before y x) (h : xs.Pairwise before) {x : α} :
    xs.head? = some x ↔ x ∈ xs ∧ ∀ y ∈ xs, ¬ before y x := by
  cases xs with
  | nil => simp
  | cons first rest =>
    obtain ⟨hfirst, _⟩ := List.pairwise_cons.1 h
    constructor
    · intro hhead
      obtain rfl : first = x := Option.some.inj hhead
      refine ⟨List.mem_cons_self, fun y hy hbefore => ?_⟩
      rcases List.mem_cons.1 hy with rfl | hy
      · exact hasymm _ _ hbefore hbefore
      · exact hasymm _ _ (hfirst y hy) hbefore
    · rintro ⟨hx, hnone⟩
      rcases List.mem_cons.1 hx with rfl | hx
      · rfl
      · exact absurd (hfirst x hx) (hnone first List.mem_cons_self)

/-! ## The offences of a tree -/

/-- What offends at one element, in order and with its places. -/
def offencesAt (node : List Nat × Element) : List (Place × Violation) :=
  node.2.attributes.zipIdx.filterMap (fun a =>
      (attributeOffence? a.1).map (.attr node.1 a.2, ·))
    ++ node.2.children.zipIdx.filterMap fun child =>
      (elementOffence? child.1).map (.child node.1 child.2, ·)

/-- What offends in a tree, in order and with its places. -/
def offences (e : Element) : List (Place × Violation) :=
  e.nodes.flatMap offencesAt

/-- An offence that is listed for members of a list stands where the member stands. -/
theorem mem_filterMap_zipIdx {α β : Type} {f : α → Option β} {place : Nat → Place} {xs : List α}
    {p : Place} {b : β} :
    (p, b) ∈ xs.zipIdx.filterMap (fun x => (f x.1).map (place x.2, ·)) ↔
      ∃ i, place i = p ∧ (xs[i]?).bind f = some b := by
  simp only [List.mem_filterMap, Prod.exists, List.mem_zipIdx_iff_getElem?, Option.map_eq_some_iff,
    Prod.mk.injEq, Option.bind_eq_some_iff]
  constructor
  · rintro ⟨x, i, hx, b', hb, rfl, rfl⟩
    exact ⟨i, rfl, x, hx, hb⟩
  · rintro ⟨i, rfl, x, hx, hb⟩
    exact ⟨x, i, hx, b, hb, rfl, rfl⟩

theorem mem_offencesAt {node : List Nat × Element} {p : Place} {violation : Violation} :
    (p, violation) ∈ offencesAt node ↔
      (∃ i, .attr node.1 i = p ∧
        (node.2.attributes[i]?).bind attributeOffence? = some violation) ∨
      ∃ i, .child node.1 i = p ∧ (node.2.children[i]?).bind elementOffence? = some violation := by
  rw [offencesAt, List.mem_append, mem_filterMap_zipIdx, mem_filterMap_zipIdx]

theorem path_of_mem_offencesAt {node : List Nat × Element} {entry : Place × Violation}
    (h : entry ∈ offencesAt node) : entry.1.path = node.1 := by
  obtain ⟨p, violation⟩ := entry
  rcases mem_offencesAt.1 h with ⟨i, rfl, _⟩ | ⟨i, rfl, _⟩
  · rfl
  · rfl

/-- Exactly the offences of the tree are listed. -/
theorem mem_offences {e : Element} {p : Place} {violation : Violation} :
    (p, violation) ∈ offences e ↔ offence? e p = some violation := by
  rw [offences, List.mem_flatMap]
  constructor
  · rintro ⟨⟨path, n⟩, hnode, hmem⟩
    have hn := (Element.mem_nodes_iff e n path).1 hnode
    rcases mem_offencesAt.1 hmem with ⟨i, rfl, hv⟩ | ⟨i, rfl, hv⟩
    · rw [offence?, hn]
      exact hv
    · rw [offence?, hn]
      exact hv
  · intro hv
    cases p with
    | attr path i =>
      rw [offence?, Option.bind_assoc] at hv
      obtain ⟨n, hn, hv⟩ := Option.bind_eq_some_iff.1 hv
      exact ⟨(path, n), (Element.mem_nodes_iff e n path).2 hn, mem_offencesAt.2 (.inl ⟨i, rfl, hv⟩)⟩
    | child path i =>
      rw [offence?, Option.bind_assoc] at hv
      obtain ⟨n, hn, hv⟩ := Option.bind_eq_some_iff.1 hv
      exact ⟨(path, n), (Element.mem_nodes_iff e n path).2 hn, mem_offencesAt.2 (.inr ⟨i, rfl, hv⟩)⟩

/-- Offences of members of a list come in the order of the members. -/
theorem pairwise_filterMap_zipIdx {α β : Type} {f : α → Option β} {place : Nat → Place}
    (hplace : ∀ i j, i < j → (place i).Before (place j)) (xs : List α) (start : Nat) :
    ((xs.zipIdx start).filterMap fun x => (f x.1).map (place x.2, ·)).Pairwise
      fun a b => a.1.Before b.1 := by
  induction xs generalizing start with
  | nil => exact .nil
  | cons x xs ih =>
    rw [List.zipIdx_cons, List.filterMap_cons]
    cases f x with
    | none => exact ih (start + 1)
    | some b =>
      refine List.pairwise_cons.2 ⟨?_, ih (start + 1)⟩
      intro entry hentry
      obtain ⟨y, hy, hentry⟩ := List.mem_filterMap.1 hentry
      obtain ⟨b', _, rfl⟩ := Option.map_eq_some_iff.1 hentry
      exact hplace _ _ (List.le_snd_of_mem_zipIdx hy)

/-- The offences are listed in the order of their places. -/
theorem pairwise_offences (e : Element) :
    (offences e).Pairwise fun a b => a.1.Before b.1 := by
  rw [offences, List.pairwise_flatMap]
  constructor
  · intro node _
    rw [offencesAt, List.pairwise_append]
    refine ⟨pairwise_filterMap_zipIdx (fun _ _ => .attr) _ 0,
      pairwise_filterMap_zipIdx (fun _ _ => .child) _ 0, ?_⟩
    rintro ⟨p, v⟩ hp ⟨q, w⟩ hq
    obtain ⟨i, rfl, _⟩ := mem_filterMap_zipIdx.1 hp
    obtain ⟨j, rfl, _⟩ := mem_filterMap_zipIdx.1 hq
    exact .part _ i j
  · refine (Element.pairwise_nodes e).imp fun hpath a ha b hb => .element ?_
    rwa [path_of_mem_offencesAt ha, path_of_mem_offencesAt hb]

/-- The first offence is the head of the list. -/
theorem isFirst_iff {e : Element} {p : Place} {violation : Violation} :
    IsFirst e p violation ↔ (offences e).head? = some (p, violation) := by
  rw [head?_eq_some_iff_of_pairwise (fun _ _ => Place.Before.asymm) (pairwise_offences e),
    mem_offences]
  constructor
  · rintro ⟨hoffends, hbefore⟩
    refine ⟨hoffends, ?_⟩
    rintro ⟨earlier, v⟩ hearlier hlt
    rw [mem_offences, hbefore earlier hlt] at hearlier
    cases hearlier
  · rintro ⟨hoffends, hnone⟩
    refine ⟨hoffends, fun earlier hlt => ?_⟩
    refine Option.eq_none_iff_forall_not_mem.2 fun v hv => ?_
    exact hnone (earlier, v) (mem_offences.2 hv) hlt

/-! ## The check -/

/-- Without the places there are the members that offend. -/
theorem map_snd_filterMap_zipIdx {α β : Type} (f : α → Option β) (place : Nat → Place)
    (xs : List α) :
    (xs.zipIdx.filterMap fun x => (f x.1).map (place x.2, ·)).map (·.2) = xs.filterMap f := by
  have hmembers : xs.filterMap f = xs.zipIdx.filterMap fun x => f x.1 :=
    (congrArg (List.filterMap f) (List.zipIdx_map_fst 0 xs)).symm.trans List.filterMap_map
  rw [hmembers, List.map_filterMap]
  refine congrArg (fun g => List.filterMap g xs.zipIdx) (funext fun x => ?_)
  rw [Option.map_map]
  exact Option.map_id'

/-- A report on every member that is not in order is a report on those that remain when the others
are left out. -/
theorem filterMap_report {α : Type} (p : α → Prop) [DecidablePred p] (report : α → Violation)
    (xs : List α) :
    xs.filterMap (fun x => if p x then none else some (report x)) =
      (xs.filter fun x => ¬ p x).map report := by
  induction xs with
  | nil => rfl
  | cons x xs ih => by_cases hx : p x <;> simp [hx, ih]

theorem map_snd_offencesAt (node : List Nat × Element) :
    (offencesAt node).map (·.2) =
      (node.2.attributes.filter (·.name ∉ attributeNames)).map (.unknownAttribute ·.name)
        ++ (node.2.children.filter (·.name ∉ elementNames)).map (.unknownElement ·.name) := by
  rw [offencesAt, List.map_append, map_snd_filterMap_zipIdx, map_snd_filterMap_zipIdx]
  exact congr (congrArg _ (filterMap_report _ _ _)) (filterMap_report _ _ _)

mutual

/-- The list without the places is the one that the check works through. -/
theorem map_snd_offences (e : Element) : (offences e).map (·.2) = offenders e := by
  match e with
  | ⟨name, attributes, children⟩ =>
    rw [offences, Element.nodes, List.flatMap_cons, List.map_append, map_snd_offencesAt,
      map_snd_offencesFrom 0 children, offenders, List.append_assoc]

theorem map_snd_offencesFrom (i : Nat) (es : List Element) :
    ((Element.nodesFrom i es).flatMap offencesAt).map (·.2) = offendersAll es := by
  match es with
  | [] => rfl
  | e :: es =>
    have hpath : ((e.nodes.map fun node => (i :: node.1, node.2)).flatMap offencesAt).map (·.2) =
        (offences e).map (·.2) := by
      rw [offences, List.flatMap_map, List.map_flatMap, List.map_flatMap]
      refine congrArg (fun f => e.nodes.flatMap f) (funext fun node => ?_)
      rw [map_snd_offencesAt, map_snd_offencesAt]
    rw [Element.nodesFrom, List.flatMap_append, List.map_append, hpath, map_snd_offences e,
      map_snd_offencesFrom (i + 1) es, offendersAll]

end

theorem checkTree_eq_error_iff {e : Element} {violation : Violation} :
    checkTree e = .error violation ↔ ∃ p, IsFirst e p violation := by
  rw [checkTree_eq, verdict_eq_error_iff, ← map_snd_offences, List.head?_map,
    Option.map_eq_some_iff]
  simp only [isFirst_iff, Prod.exists]
  constructor
  · rintro ⟨p, v, hhead, rfl⟩
    exact ⟨p, hhead⟩
  · rintro ⟨p, hhead⟩
    exact ⟨p, violation, hhead, rfl⟩

theorem offences_eq_nil_iff {e : Element} : offences e = [] ↔ KeepsVocabulary e := by
  have hnil : offences e = [] ↔ ∀ p, offence? e p = none := by
    simp only [List.eq_nil_iff_forall_not_mem, Prod.forall, mem_offences,
      Option.eq_none_iff_forall_not_mem, Option.mem_def]
  rw [hnil]
  constructor
  · intro hnone
    constructor
    · intro path n hn a ha
      obtain ⟨i, hi⟩ := List.getElem?_of_mem ha
      have hoffence := hnone (.attr path i)
      rw [offence?, hn, Option.bind_some, hi, Option.bind_some, attributeOffence?] at hoffence
      simpa using hoffence
    · intro path n hpath hn
      -- what is not the root is a child of what the path without its last step leads to
      rw [← List.dropLast_concat_getLast hpath, Element.at?_concat] at hn
      have hoffence := hnone (.child path.dropLast (path.getLast hpath))
      rw [offence?, hn, Option.bind_some, elementOffence?] at hoffence
      simpa using hoffence
  · rintro ⟨hattributes, helements⟩ (⟨path, i⟩ | ⟨path, i⟩)
    · rw [offence?, Option.bind_assoc]
      refine Option.eq_none_iff_forall_not_mem.2 fun v hv => ?_
      obtain ⟨n, hn, hv⟩ := Option.bind_eq_some_iff.1 hv
      obtain ⟨a, ha, hv⟩ := Option.bind_eq_some_iff.1 hv
      rw [attributeOffence?, if_pos (hattributes path n hn a (List.mem_of_getElem? ha))] at hv
      cases hv
    · rw [offence?, ← Element.at?_concat]
      refine Option.eq_none_iff_forall_not_mem.2 fun v hv => ?_
      obtain ⟨n, hn, hv⟩ := Option.bind_eq_some_iff.1 hv
      rw [elementOffence?, if_pos (helements (path ++ [i]) n (by simp) hn)] at hv
      cases hv

theorem checkTree_eq_ok_iff {e : Element} : checkTree e = .ok () ↔ KeepsVocabulary e := by
  rw [checkTree_eq, verdict_eq_ok_iff, ← map_snd_offences, List.map_eq_nil_iff,
    offences_eq_nil_iff]
  exact and_iff_left rfl

/-! ## Attribute values -/

theorem name_withoutValues (e : Element) : e.withoutValues.name = e.name := by
  cases e
  rw [Element.withoutValues]

theorem map_name_withoutValuesAll (es : List Element) :
    (Element.withoutValuesAll es).map (·.name) = es.map (·.name) := by
  induction es with
  | nil => rfl
  | cons e es ih =>
    rw [Element.withoutValuesAll, List.map_cons, List.map_cons, ih, name_withoutValues]

mutual

/-- Values have no part in what offends. -/
theorem offenders_withoutValues (e : Element) : offenders e.withoutValues = offenders e := by
  match e with
  | ⟨name, attributes, children⟩ =>
    have hattributes : ((attributes.map fun a => Attribute.mk a.name "").filter
        (·.name ∉ attributeNames)).map (Violation.unknownAttribute ·.name) =
        (attributes.filter (·.name ∉ attributeNames)).map (.unknownAttribute ·.name) := by
      rw [List.filter_map, List.map_map]
      rfl
    have hnames : ∀ es : List Element,
        (es.filter (·.name ∉ elementNames)).map (Violation.unknownElement ·.name) =
          ((es.map (·.name)).filter (· ∉ elementNames)).map .unknownElement := by
      intro es
      rw [List.filter_map, List.map_map]
      rfl
    rw [Element.withoutValues, offenders, offenders, offendersAll_withoutValues children,
      hattributes, hnames, hnames, map_name_withoutValuesAll]

theorem offendersAll_withoutValues (es : List Element) :
    offendersAll (Element.withoutValuesAll es) = offendersAll es := by
  match es with
  | [] => rfl
  | e :: es =>
    rw [Element.withoutValuesAll, offendersAll, offendersAll, offenders_withoutValues e,
      offendersAll_withoutValues es]

end

/-- **The check of the vocabulary is exact and reports the first offender.**  It passes exactly the
trees that keep the vocabulary, else reports what offends at the first place, and looks at no
attribute value. -/
theorem checkTree_reports_first_place (e : Element) :
    (checkTree e = .ok () ↔ KeepsVocabulary e) ∧
    (∀ violation, checkTree e = .error violation ↔ ∃ p, IsFirst e p violation) ∧
    ∀ other : Element, other.withoutValues = e.withoutValues → checkTree other = checkTree e := by
  refine ⟨checkTree_eq_ok_iff, fun _ => checkTree_eq_error_iff, fun other hsame => ?_⟩
  rw [checkTree_eq, checkTree_eq, ← offenders_withoutValues other, hsame, offenders_withoutValues e]

/-- A name on a later child goes before an attribute inside an earlier one. -/
example : checkTree ⟨"scxml", [], [⟨"state", [⟨"foo", "1"⟩], []⟩, ⟨"history", [], []⟩]⟩ =
    .error (.unknownElement "history") :=
  rfl

end Statechart.Vocabulary
