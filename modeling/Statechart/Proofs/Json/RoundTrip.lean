import Statechart.Json.Printer
import Statechart.Json.Reader
set_option autoImplicit false

/-!
# JSON: reading what was printed

The reader gives back what the compact printer wrote, whatever comes after it: first the units of a
string, then values.  A value that is read back (`Value.ReadsBack`) can be put into arrays and
objects, which are then read back too, so that each kind of value is looked at once.

The length of the text bounds the fuel that is needed, since every value inside another is written
with a mark of its own.
-/

namespace Statechart.Json

/-! ## Strings -/

/-- What is read from a text, with a unit in front of it. -/
def readAfter (unit : TextUnit) (rest : List Char) : Option (List TextUnit × List Char) :=
  (readUnits rest).map fun read => (unit :: read.1, read.2)

theorem readUnits_digits {a b c d : Char} {unit : TextUnit} (h : escapedUnit? a b c d = some unit)
    (rest : List Char) :
    readUnits ('\x5c' :: 'u' :: a :: b :: c :: d :: rest) = readAfter unit rest := by
  rw [readUnits, h, readAfter]
  cases readUnits rest <;> rfl

theorem readUnits_letter {letter c : Char} (h : escapedChar? letter = some c) (rest : List Char) :
    readUnits ('\x5c' :: letter :: rest) = readAfter (.char c) rest := by
  have hletter : letter ≠ 'u' := by
    rintro rfl
    have hnone : escapedChar? 'u' = none := by decide
    rw [hnone] at h
    cases h
  rw [readUnits, h, readAfter]
  · cases readUnits rest <;> rfl
  · exact fun _ _ _ _ _ heq _ => hletter heq

theorem readUnits_itself {c : Char} (hquote : c ≠ '\x22') (hmark : c ≠ '\x5c')
    (hcontrol : ¬ c.toNat < 32) (rest : List Char) :
    readUnits (c :: rest) = readAfter (.char c) rest := by
  rw [readUnits, if_neg (not_or.2 ⟨hmark, hcontrol⟩), readAfter]
  · cases readUnits rest <;> rfl
  · exact hquote
  · exact fun _ _ _ _ _ heq _ => hmark heq
  · exact fun _ _ heq _ => hmark heq

/-- The four digits that are written for a control character are read as that character. -/
theorem escapedUnit?_hexDigit {n : Nat} (h : n < 32) :
    escapedUnit? (hexDigit (n / 4096 % 16)) (hexDigit (n / 256 % 16)) (hexDigit (n / 16 % 16))
      (hexDigit (n % 16)) = some (.char (Char.ofNat n)) := by
  have hall : (List.range 32).all (fun k => escapedUnit? (hexDigit (k / 4096 % 16))
      (hexDigit (k / 256 % 16)) (hexDigit (k / 16 % 16)) (hexDigit (k % 16)) =
      some (.char (Char.ofNat k))) = true := by
    decide +kernel
  exact of_decide_eq_true (List.all_eq_true.1 hall n (List.mem_range.2 h))

/-- How a character is written: as a letter after a backslash, as a number, or as itself. -/
theorem escapeChar_cases (c : Char) :
    (∃ letter, escapedChar? letter = some c ∧ escapeChar c = ['\x5c', letter]) ∨
      (c.toNat < 32 ∧ escapeChar c = numericEscape c.toNat) ∨
      (c ≠ '\x22' ∧ c ≠ '\x5c' ∧ ¬ c.toNat < 32 ∧ escapeChar c = [c]) := by
  by_cases hquote : c = '\x22'
  · exact .inl ⟨'\x22', by subst hquote; decide⟩
  by_cases hmark : c = '\x5c'
  · exact .inl ⟨'\x5c', by subst hmark; decide⟩
  by_cases hb : c = '\x08'
  · exact .inl ⟨'b', by subst hb; decide⟩
  by_cases hf : c = '\x0c'
  · exact .inl ⟨'f', by subst hf; decide⟩
  by_cases hn : c = '\n'
  · exact .inl ⟨'n', by subst hn; decide⟩
  by_cases hr : c = '\r'
  · exact .inl ⟨'r', by subst hr; decide⟩
  by_cases ht : c = '\t'
  · exact .inl ⟨'t', by subst ht; decide⟩
  rw [escapeChar, if_neg hquote, if_neg hmark, if_neg hb, if_neg hf, if_neg hn, if_neg hr,
    if_neg ht]
  by_cases hcontrol : c.toNat < 32
  · exact .inr (.inl ⟨hcontrol, if_pos hcontrol⟩)
  · exact .inr (.inr ⟨hquote, hmark, hcontrol, if_neg hcontrol⟩)

/-- A character is read from what was written for it. -/
theorem readUnits_escapeChar (c : Char) (rest : List Char) :
    readUnits (escapeChar c ++ rest) = readAfter (.char c) rest := by
  rcases escapeChar_cases c with ⟨letter, hletter, heq⟩ | ⟨hcontrol, heq⟩ |
    ⟨hquote, hmark, hcontrol, heq⟩
  · rw [heq]
    exact readUnits_letter hletter rest
  · have hdigits := escapedUnit?_hexDigit hcontrol
    rw [Char.ofNat_toNat] at hdigits
    rw [heq]
    exact readUnits_digits hdigits rest
  · rw [heq]
    exact readUnits_itself hquote hmark hcontrol rest

/-- The characters of a text are read up to the closing quote. -/
theorem readUnits_escaped (cs rest : List Char) :
    readUnits ((cs.map TextUnit.char).flatMap escapeUnit ++ '\x22' :: rest) =
      some (cs.map .char, rest) := by
  induction cs with
  | nil => exact readUnits.eq_2 rest
  | cons c cs ih =>
    rw [List.map_cons, List.flatMap_cons, List.append_assoc, escapeUnit, readUnits_escapeChar,
      readAfter, ih]
    rfl

/-- The quoted form of a text, and what it is read as after the opening quote. -/
theorem quote_append (text : String) (rest : List Char) :
    ∃ body, quote (unitsOf text) ++ rest = '\x22' :: body ∧
      readUnits body = some (unitsOf text, rest) := by
  refine ⟨(unitsOf text).flatMap escapeUnit ++ '\x22' :: rest, ?_, readUnits_escaped _ rest⟩
  rw [quote, List.cons_append, List.append_assoc]
  rfl

/-! ## Values -/

theorem skipBlanks_cons {c : Char} (h : isBlank c = false) (rest : List Char) :
    skipBlanks (c :: rest) = c :: rest := by
  rw [skipBlanks, List.dropWhile_cons_of_neg (by simp [h])]

namespace Value

/-- A value that is read from its compact form, whatever comes after it.  Nobody takes its first
character for a blank or for the end of an array. -/
structure ReadsBack (v : Value) : Prop where
  starts : ∃ c cs, v.compact = c :: cs ∧ isBlank c = false ∧ c ≠ ']'
  read : ∀ fuel rest, v.compact.length < fuel → readValue fuel (v.compact ++ rest) = some (v, rest)

theorem readsBack_text (text : String) : (Value.text text).ReadsBack := by
  refine ⟨⟨'\x22', _, by rw [Value.text, compact, quote], by decide, by decide⟩, ?_⟩
  intro fuel rest hfuel
  obtain ⟨body, hbody, hread⟩ := quote_append text rest
  cases fuel with
  | zero => exact absurd hfuel (Nat.not_lt_zero _)
  | succ fuel =>
    rw [Value.text, compact, hbody, readValue, skipBlanks_cons (by decide)]
    simp [hread]

/-! ## Arrays -/

/-- Items before the first of which a comma is due. -/
theorem compactItems_cons_cons (item next : Value) (rest : List Value) :
    compactItems (item :: next :: rest) = item.compact ++ ',' :: compactItems (next :: rest) := by
  rw [compactItems]
  exact List.cons_ne_nil _ _

/-- Items that are read back one by one are read back in a row. -/
theorem readItems_compactItems {items : List Value} (hne : items ≠ [])
    (h : ∀ item ∈ items, item.ReadsBack) (fuel : Nat) (rest : List Char)
    (hfuel : (compactItems items).length + 1 < fuel) :
    readItems fuel (compactItems items ++ ']' :: rest) = some (items, rest) := by
  induction items generalizing fuel with
  | nil => exact absurd rfl hne
  | cons item items ih =>
    obtain ⟨fuel, rfl⟩ : ∃ less, fuel = less + 1 := ⟨fuel - 1, by omega⟩
    have hitem := (h item List.mem_cons_self).read
    cases items with
    | nil =>
      rw [compactItems] at hfuel ⊢
      rw [readItems, hitem fuel _ (by omega)]
      simp [skipBlanks, isBlank]
    | cons next items =>
      rw [compactItems_cons_cons, List.length_append, List.length_cons] at hfuel
      have hrest := ih (List.cons_ne_nil _ _) (fun v hv => h v (List.mem_cons_of_mem _ hv)) fuel
        (by omega)
      rw [compactItems_cons_cons, List.append_assoc, List.cons_append, readItems,
        hitem fuel _ (by omega)]
      simp [skipBlanks, isBlank, hrest]

/-- The first character of items is that of the first item. -/
theorem head?_compactItems (item : Value) (items : List Value) {c : Char} {cs : List Char}
    (h : item.compact = c :: cs) : ∃ rest, compactItems (item :: items) = c :: rest := by
  cases items with
  | nil => exact ⟨cs, by rw [compactItems, h]⟩
  | cons next items => exact ⟨_, by rw [compactItems_cons_cons, h, List.cons_append]⟩

theorem readsBack_array {items : List Value} (h : ∀ item ∈ items, item.ReadsBack) :
    (Value.array items).ReadsBack := by
  refine ⟨⟨'[', _, by rw [compact], by decide, by decide⟩, ?_⟩
  intro fuel rest hfuel
  rw [compact] at hfuel ⊢
  rw [List.length_cons, List.length_append, List.length_singleton] at hfuel
  obtain ⟨fuel, rfl⟩ : ∃ less, fuel = less + 1 := ⟨fuel - 1, by omega⟩
  rw [List.cons_append, List.append_assoc, List.singleton_append, readValue,
    skipBlanks_cons (by decide)]
  cases items with
  | nil => simp [compactItems, skipBlanks, isBlank]
  | cons item items =>
    have hread := readItems_compactItems (List.cons_ne_nil item items) h fuel rest (by omega)
    obtain ⟨c, cs, hcompact, hblank, hclose⟩ := (h item List.mem_cons_self).starts
    obtain ⟨more, hmore⟩ := head?_compactItems item items hcompact
    rw [hmore, List.cons_append] at hread ⊢
    simp [skipBlanks_cons hblank, hclose, hread]

/-! ## Objects -/

/-- The members that a record gets. -/
def namedMembers (members : List (String × Value)) : List (List TextUnit × Value) :=
  members.map fun member => (unitsOf member.1, member.2)

theorem compactMembers_cons_cons (member next : String × Value) (rest : List (String × Value)) :
    compactMembers (namedMembers (member :: next :: rest)) =
      quote (unitsOf member.1) ++ ':' :: (member.2.compact ++ ',' ::
        compactMembers (namedMembers (next :: rest))) := by
  rw [namedMembers, List.map_cons, compactMembers]
  · rfl
  · exact List.cons_ne_nil _ _

theorem compactMembers_singleton (member : String × Value) :
    compactMembers (namedMembers [member]) =
      quote (unitsOf member.1) ++ ':' :: member.2.compact := by
  rw [namedMembers, List.map_cons, List.map_nil, compactMembers]

section Member

variable {member : String × Value} (h : member.2.ReadsBack) {fuel : Nat}
  (hfuel : member.2.compact.length < fuel)

include h hfuel

/-- The last member is read up to the closing brace. -/
theorem readMembers_last (rest : List Char) :
    readMembers (fuel + 1)
        (quote (unitsOf member.1) ++ ':' :: (member.2.compact ++ '\x7d' :: rest)) =
      some ([(unitsOf member.1, member.2)], rest) := by
  obtain ⟨body, hbody, hname⟩ :=
    quote_append member.1 (':' :: (member.2.compact ++ '\x7d' :: rest))
  rw [hbody, readMembers, skipBlanks_cons (by decide)]
  simp [hname, skipBlanks, isBlank, h.read fuel _ hfuel]

/-- A member before others is read up to the comma. -/
theorem readMembers_next {more rest : List Char} {members : List (List TextUnit × Value)}
    (hmore : readMembers fuel more = some (members, rest)) :
    readMembers (fuel + 1)
        (quote (unitsOf member.1) ++ ':' :: (member.2.compact ++ ',' :: more)) =
      some ((unitsOf member.1, member.2) :: members, rest) := by
  obtain ⟨body, hbody, hname⟩ := quote_append member.1 (':' :: (member.2.compact ++ ',' :: more))
  rw [hbody, readMembers, skipBlanks_cons (by decide)]
  simp [hname, skipBlanks, isBlank, h.read fuel _ hfuel, hmore]

end Member

/-- Members whose values are read back are read back in a row. -/
theorem readMembers_compactMembers {members : List (String × Value)} (hne : members ≠ [])
    (h : ∀ member ∈ members, member.2.ReadsBack) (fuel : Nat) (rest : List Char)
    (hfuel : (compactMembers (namedMembers members)).length + 1 < fuel) :
    readMembers fuel (compactMembers (namedMembers members) ++ '\x7d' :: rest) =
      some (namedMembers members, rest) := by
  induction members generalizing fuel with
  | nil => exact absurd rfl hne
  | cons member members ih =>
    obtain ⟨fuel, rfl⟩ : ∃ less, fuel = less + 1 := ⟨fuel - 1, by omega⟩
    have hvalue := h member List.mem_cons_self
    cases members with
    | nil =>
      rw [compactMembers_singleton, List.length_append, List.length_cons] at hfuel
      rw [compactMembers_singleton, List.append_assoc, List.cons_append]
      exact readMembers_last hvalue (by omega) rest
    | cons next members =>
      rw [compactMembers_cons_cons, List.length_append, List.length_cons, List.length_append,
        List.length_cons] at hfuel
      have hrest := ih (List.cons_ne_nil _ _) (fun m hm => h m (List.mem_cons_of_mem _ hm)) fuel
        (by omega)
      rw [compactMembers_cons_cons, List.append_assoc, List.cons_append, List.append_assoc,
        List.cons_append]
      exact readMembers_next hvalue (by omega) hrest

theorem readsBack_record {members : List (String × Value)}
    (h : ∀ member ∈ members, member.2.ReadsBack) : (Value.record members).ReadsBack := by
  have hrecord : Value.record members = .object (namedMembers members) := rfl
  rw [hrecord]
  refine ⟨⟨'\x7b', _, by rw [compact], by decide, by decide⟩, ?_⟩
  intro fuel rest hfuel
  rw [compact] at hfuel ⊢
  rw [List.length_cons, List.length_append, List.length_singleton] at hfuel
  obtain ⟨fuel, rfl⟩ : ∃ less, fuel = less + 1 := ⟨fuel - 1, by omega⟩
  rw [List.cons_append, List.append_assoc, List.singleton_append, readValue,
    skipBlanks_cons (by decide)]
  cases members with
  | nil => simp [namedMembers, compactMembers, skipBlanks, isBlank]
  | cons member members =>
    have hread := readMembers_compactMembers (List.cons_ne_nil member members) h fuel rest (by omega)
    have hquote : ∃ more, compactMembers (namedMembers (member :: members)) = '\x22' :: more := by
      cases members with
      | nil => exact ⟨_, by rw [compactMembers_singleton, quote, List.cons_append]⟩
      | cons next members => exact ⟨_, by rw [compactMembers_cons_cons, quote, List.cons_append]⟩
    obtain ⟨more, hmore⟩ := hquote
    rw [hmore, List.cons_append] at hread ⊢
    simp [skipBlanks, isBlank, hread]

/-- The whole text of a value is read as that value. -/
theorem ReadsBack.ofChars? {v : Value} (h : v.ReadsBack) : Value.ofChars? v.compact = some v := by
  have hread := h.read (v.compact.length + 1) [] (Nat.lt_succ_self _)
  rw [List.append_nil] at hread
  rw [Value.ofChars?, hread]
  rfl

end Value

end Statechart.Json
