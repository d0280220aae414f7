import Statechart.Markup.Document
set_option autoImplicit false

/-!
# Markup: writing

How element trees are written as markup.  A value stands in double quotes, with an entity for each
of the five characters that markup itself uses; an element without children is written as one tag or
as two.  `Written` relates siblings to the texts that write them, with any comments and any other text
between the tags.  `Element.write` gives one such text for every tree.

The inside of a tag is read back here: values (`expand_escape`), names and attributes
(`tagName_written`, `tagAttributes_written`).
-/

namespace Statechart.Markup

open Statechart.Text

/-! ## Names -/

/-- Characters that may continue a name: ASCII letters, digits, the underscore and the hyphen. -/
def isNamePart (c : Char) : Bool :=
  c.isAlphanum || c = '_' || c = '-'

/-- Whether characters have the form of a name: they start with a letter. -/
def hasNameForm : List Char → Bool
  | [] => false
  | c :: cs => c.isAlpha && cs.all isNamePart

mutual

/-- Trees with names that can be written.  No attribute of an element is given twice. -/
def Element.Writable : Element → Prop
  | ⟨name, attributes, children⟩ =>
    hasNameForm name.toList = true ∧ (∀ a ∈ attributes, hasNameForm a.name.toList = true) ∧
      (attributes.map (·.name)).Nodup ∧ Element.AllWritable children

/-- Siblings with names that can be written. -/
def Element.AllWritable : List Element → Prop
  | [] => True
  | e :: es => e.Writable ∧ Element.AllWritable es

end

/-! ## The form of written markup -/

/-- A character of a value as it is written. -/
def escapeChar (c : Char) : List Char :=
  if c = '<' then ['&', 'l', 't', ';']
  else if c = '>' then ['&', 'g', 't', ';']
  else if c = '&' then ['&', 'a', 'm', 'p', ';']
  else if c = '\x27' then ['&', 'a', 'p', 'o', 's', ';']
  else if c = '\x22' then ['&', 'q', 'u', 'o', 't', ';']
  else [c]

/-- A value as it is written. -/
def escape (value : List Char) : List Char :=
  value.flatMap escapeChar

/-- An attribute as it is written. -/
def writeAttribute (a : Attribute) : List Char :=
  a.name.toList ++ ['=', '\x22'] ++ escape a.value.toList ++ ['\x22']

/-- The texts that write attributes: each one after some blanks, and perhaps blanks at the end. -/
inductive WrittenAttributes : List Attribute → List Char → Prop where
  | nil {blanks : List Char} (h : ∀ c ∈ blanks, isBlank c = true) : WrittenAttributes [] blanks
  | cons {blanks rest : List Char} {a : Attribute} {as : List Attribute} (hne : blanks ≠ [])
      (h : ∀ c ∈ blanks, isBlank c = true) (hrest : WrittenAttributes as rest) :
      WrittenAttributes (a :: as) (blanks ++ writeAttribute a ++ rest)

/-- The texts that write siblings one after the other. -/
inductive Written : List Element → List Char → Prop where
  /-- nothing -/
  | nil : Written [] []
  /-- a blank, or any other character that starts no tag -/
  | char {c : Char} {es : List Element} {rest : List Char} (hc : c ≠ '<')
      (hrest : Written es rest) : Written es (c :: rest)
  /-- a comment -/
  | comment {body : List Char} {es : List Element} {rest : List Char}
      (hbody : ¬ ['-', '-'] <:+: body) (hrest : Written es rest) :
      Written es (['<', '!', '-', '-'] ++ body ++ ['-', '-', '>'] ++ rest)
  /-- an element without children, as one tag -/
  | empty {name : String} {attributes : List Attribute} {inside : List Char} {es : List Element}
      {rest : List Char} (hinside : WrittenAttributes attributes inside) (hrest : Written es rest) :
      Written (⟨name, attributes, []⟩ :: es)
        (['<'] ++ name.toList ++ inside ++ ['/', '>'] ++ rest)
  /-- an element as a start tag, its children and an end tag -/
  | full {name : String} {attributes : List Attribute} {inside inner blanks : List Char}
      {children es : List Element} {rest : List Char}
      (hinside : WrittenAttributes attributes inside) (hinner : Written children inner)
      (hblanks : ∀ c ∈ blanks, isBlank c = true) (hrest : Written es rest) :
      Written (⟨name, attributes, children⟩ :: es)
        (['<'] ++ name.toList ++ inside ++ ['>'] ++ inner ++ ['<', '/'] ++ name.toList ++ blanks
          ++ ['>'] ++ rest)

mutual

/-- A text that writes an element. -/
def Element.write : Element → List Char
  | ⟨name, attributes, children⟩ =>
    ['<'] ++ name.toList ++ attributes.flatMap (fun a => ' ' :: writeAttribute a) ++ ['>']
      ++ Element.writeAll children ++ ['<', '/'] ++ name.toList ++ ['>']

/-- A text that writes siblings. -/
def Element.writeAll : List Element → List Char
  | [] => []
  | e :: es => e.write ++ Element.writeAll es

end

theorem writtenAttributes_flatMap (attributes : List Attribute) :
    WrittenAttributes attributes (attributes.flatMap fun a => ' ' :: writeAttribute a) := by
  induction attributes with
  | nil => exact .nil fun c hc => absurd hc List.not_mem_nil
  | cons a attributes ih =>
    have hblank : ∀ c ∈ [' '], isBlank c = true := by simp [isBlank]
    exact .cons (List.cons_ne_nil _ _) hblank ih

/-- Every tree can be written. -/
theorem written_writeAll : ∀ es : List Element, Written es (Element.writeAll es)
  | [] => by
    rw [Element.writeAll]
    exact .nil
  | ⟨name, attributes, children⟩ :: es => by
    have hblanks : ∀ c ∈ ([] : List Char), isBlank c = true := fun c hc =>
      absurd hc List.not_mem_nil
    have hfull : Written (⟨name, attributes, children⟩ :: es) _ :=
      .full (writtenAttributes_flatMap attributes) (written_writeAll children) hblanks
        (written_writeAll es)
    rw [Element.writeAll, Element.write]
    simpa using hfull

theorem Element.written_write (e : Element) : Written [e] e.write := by
  have hwrite := written_writeAll [e]
  rwa [Element.writeAll, Element.writeAll, List.append_nil] at hwrite

/-! ## Values -/

/-- An entity is expanded to its character. -/
theorem expandFrom_entity {name : List Char} {c : Char} (hname : name.all isEntityBody = true)
    (hchar : ∀ start stop, entityCharacter start stop name = .ok c) {whole rest tail : List Char}
    (hrest : expandFrom whole rest = .ok tail) :
    expandFrom whole ('&' :: (name ++ ';' :: rest)) = .ok (c :: tail) := by
  have hbody := List.all_eq_true.1 hname
  have htake : (name ++ ';' :: rest).takeWhile isEntityBody = name := by
    rw [List.takeWhile_append_of_pos hbody, List.takeWhile_cons_of_neg (by decide), List.append_nil]
  have hdrop : (name ++ ';' :: rest).dropWhile isEntityBody = ';' :: rest := by
    rw [List.dropWhile_append_of_pos hbody, List.dropWhile_cons_of_neg (by decide)]
  rw [expandFrom, if_pos rfl]
  split
  · rename_i after heq
    rw [hdrop] at heq
    obtain rfl : rest = after := (List.cons.inj heq).2
    rw [htake, hchar, hrest]
    rfl
  · rename_i hne
    exact absurd hdrop (hne rest)

/-- A character is written as it stands, or as an entity that stands for it. -/
theorem escapeChar_cases (c : Char) :
    (escapeChar c = [c] ∧ c ≠ '&' ∧ c ≠ '\x22') ∨
      ∃ name, escapeChar c = '&' :: (name ++ [';']) ∧ name.all isEntityBody = true ∧
        '\x22' ∉ name ∧ ∀ start stop, entityCharacter start stop name = .ok c := by
  unfold escapeChar
  split
  · rename_i hc
    exact .inr ⟨['l', 't'], rfl, by decide, by decide, fun _ _ => hc ▸ rfl⟩
  split
  · rename_i hc
    exact .inr ⟨['g', 't'], rfl, by decide, by decide, fun _ _ => hc ▸ rfl⟩
  split
  · rename_i hc
    exact .inr ⟨['a', 'm', 'p'], rfl, by decide, by decide, fun _ _ => hc ▸ rfl⟩
  split
  · rename_i hc
    exact .inr ⟨['a', 'p', 'o', 's'], rfl, by decide, by decide, fun _ _ => hc ▸ rfl⟩
  split
  · rename_i hc
    exact .inr ⟨['q', 'u', 'o', 't'], rfl, by decide, by decide, fun _ _ => hc ▸ rfl⟩
  · rename_i hamp _ hquote
    exact .inl ⟨rfl, hamp, hquote⟩

/-- What was escaped is expanded to what it was. -/
theorem expandFrom_escape (whole value : List Char) :
    expandFrom whole (escape value) = .ok value := by
  induction value with
  | nil =>
    rw [escape, List.flatMap_nil, expandFrom]
  | cons c value ih =>
    rw [escape, List.flatMap_cons, ← escape]
    rcases escapeChar_cases c with ⟨hchar, hne, _⟩ | ⟨name, hchar, hname, _, hentity⟩
    · rw [hchar, List.singleton_append, expandFrom, if_neg hne, ih]
      rfl
    · rw [hchar, List.cons_append, List.append_assoc, List.singleton_append]
      exact expandFrom_entity hname hentity ih

theorem expand_escape (value : List Char) : expand (escape value) = .ok value :=
  expandFrom_escape _ value

/-- No quote stands in a value that was escaped. -/
theorem quote_not_mem_escape (value : List Char) : '\x22' ∉ escape value := by
  intro hmem
  obtain ⟨c, _, hmem⟩ := List.mem_flatMap.1 hmem
  rcases escapeChar_cases c with ⟨hchar, _, hne⟩ | ⟨name, hchar, _, hname, _⟩
  · rw [hchar, List.mem_singleton] at hmem
    exact hne hmem.symm
  · rw [hchar, List.mem_cons, List.mem_append, List.mem_singleton] at hmem
    rcases hmem with hamp | hmem | hsemicolon
    · exact absurd hamp (by decide)
    · exact hname hmem
    · exact absurd hsemicolon (by decide)

/-! ## Names and attributes -/

theorem isNamePart_of_hasNameForm {cs : List Char} (h : hasNameForm cs = true) :
    ∀ c ∈ cs, isNamePart c = true := by
  cases cs with
  | nil => exact fun c hc => absurd hc List.not_mem_nil
  | cons first rest =>
    obtain ⟨hfirst, hrest⟩ := Bool.and_eq_true_iff.1 h
    intro c hc
    rcases List.mem_cons.1 hc with rfl | hc
    · unfold isNamePart Char.isAlphanum
      rw [hfirst]
      rfl
    · exact List.all_eq_true.1 hrest c hc

/-- A character of a name differs from every character that cannot stand in one. -/
theorem ne_of_isNamePart {c d : Char} (hc : isNamePart c = true) (hd : isNamePart d = false) :
    c ≠ d := by
  rintro rfl
  rw [hc] at hd
  exact nomatch hd

theorem isBlank_of_isNamePart {c : Char} (h : isNamePart c = true) : isBlank c = false := by
  unfold isBlank
  simp only [Bool.or_eq_false_iff, decide_eq_false_iff_not]
  exact ⟨⟨⟨ne_of_isNamePart h (by decide), ne_of_isNamePart h (by decide)⟩,
    ne_of_isNamePart h (by decide)⟩, ne_of_isNamePart h (by decide)⟩

theorem isQuote_of_isNamePart {c : Char} (h : isNamePart c = true) : isQuote c = false := by
  unfold isQuote
  simp only [Bool.or_eq_false_iff, decide_eq_false_iff_not]
  exact ⟨ne_of_isNamePart h (by decide), ne_of_isNamePart h (by decide)⟩

/-- A value is read up to the quote that ends it. -/
theorem readValue_written (whole key value after : List Char) (start : Nat) :
    readValue whole start key ('\x22' :: (escape value ++ '\x22' :: after)) =
      .ok (⟨start, key, escape value⟩, after) := by
  have hvalue : ∀ d ∈ escape value, decide (d ≠ '\x22') = true := by
    intro d hd
    exact decide_eq_true fun heq => quote_not_mem_escape value (heq ▸ hd)
  unfold readValue
  rw [List.dropWhile_cons_of_neg (by decide)]
  simp only [List.takeWhile_append_of_pos hvalue, List.dropWhile_append_of_pos hvalue]
  simp [isQuote]

/-- An attribute is read as it was written, whatever stands after it. -/
theorem readAttribute_written {c : Char} {key : List Char}
    (hkey : ∀ d ∈ key, isNamePart d = true) {seen : List RawAttribute}
    (hseen : ∀ raw ∈ seen, raw.key ≠ c :: key) (whole value after : List Char) :
    ∃ start, readAttribute whole seen c
        (key ++ '=' :: '\x22' :: (escape value ++ '\x22' :: after)) =
      .ok (⟨start, c :: key, escape value⟩, after) := by
  have hkeyChar : ∀ d ∈ key, isKeyChar d = true := by
    intro d hd
    unfold isKeyChar
    rw [isBlank_of_isNamePart (hkey d hd), Bool.and_eq_true]
    exact ⟨decide_eq_true (ne_of_isNamePart (hkey d hd) (by decide)), rfl⟩
  have hstop : ¬ isKeyChar '=' = true := by decide
  have hmark : ¬ isBlank '=' = true := by decide
  have hnone : seen.find? (·.key = c :: key) = none := by
    rw [List.find?_eq_none]
    intro raw hraw
    simpa using hseen raw hraw
  unfold readAttribute
  simp only [List.takeWhile_append_of_pos hkeyChar, List.dropWhile_append_of_pos hkeyChar,
    List.takeWhile_cons_of_neg hstop, List.dropWhile_cons_of_neg hstop,
    List.dropWhile_cons_of_neg hmark, List.append_nil, if_true, hnone]
  exact ⟨_, readValue_written whole (c :: key) value after _⟩

/-- Attributes are read one after the other. -/
theorem readAttributes_of_readAttribute {element : String} {whole cs rest after value : List Char}
    {seen : List RawAttribute} {c : Char} {raw : RawAttribute} {attributes : List Attribute}
    (hdrop : cs.dropWhile isBlank = c :: rest)
    (hread : readAttribute whole seen c rest = .ok (raw, after))
    (hvalue : expand raw.value = .ok value)
    (hrest : readAttributes element whole (seen ++ [raw]) after = .ok attributes) :
    readAttributes element whole seen cs =
      .ok (⟨String.ofList raw.key, String.ofList value⟩ :: attributes) := by
  rw [readAttributes]
  generalize cs.dropWhile isBlank = ds at hdrop ⊢
  subst hdrop
  dsimp only
  generalize readAttribute whole seen c rest = answer at hread ⊢
  subst hread
  dsimp only
  rw [hvalue]
  dsimp only
  rw [hrest]
  rfl

/-- Written attributes are read back, if none is given twice. -/
theorem readAttributes_written {attributes : List Attribute} {inside : List Char}
    (hwritten : WrittenAttributes attributes inside)
    (hnames : ∀ a ∈ attributes, hasNameForm a.name.toList = true)
    (hnodup : (attributes.map (·.name)).Nodup) {seen : List RawAttribute}
    (hseen : ∀ a ∈ attributes, ∀ raw ∈ seen, raw.key ≠ a.name.toList) (element : String)
    (whole : List Char) : readAttributes element whole seen inside = .ok attributes := by
  induction hwritten generalizing seen with
  | nil hblanks =>
    rename_i blanks
    have hdrop : blanks.dropWhile isBlank = [] := by
      rw [← List.append_nil blanks, List.dropWhile_append_of_pos hblanks]
      rfl
    rw [readAttributes]
    generalize blanks.dropWhile isBlank = ds at hdrop ⊢
    subst hdrop
    rfl
  | cons hne hblanks hrest ih =>
    rename_i blanks rest a as
    have hname := hnames a List.mem_cons_self
    obtain ⟨hnew, hnodup⟩ := List.nodup_cons.1 hnodup
    cases hkey : a.name.toList with
    | nil =>
      rw [hkey] at hname
      exact nomatch hname
    | cons c key =>
      have hparts := isNamePart_of_hasNameForm hname
      rw [hkey] at hparts
      have hdrop : (blanks ++ writeAttribute a ++ rest).dropWhile isBlank =
          c :: (key ++ '=' :: '\x22' :: (escape a.value.toList ++ '\x22' :: rest)) := by
        have hc : ¬ isBlank c = true := by
          rw [isBlank_of_isNamePart (hparts c List.mem_cons_self)]
          exact Bool.false_ne_true
        rw [List.append_assoc, List.dropWhile_append_of_pos hblanks, writeAttribute, hkey]
        simp [List.dropWhile_cons_of_neg hc]
      obtain ⟨start, hread⟩ := readAttribute_written
        (fun d hd => hparts d (List.mem_cons_of_mem _ hd))
        (fun raw hraw => hkey ▸ hseen a List.mem_cons_self raw hraw) whole a.value.toList rest
      have hapart : ∀ b ∈ as, ∀ raw ∈ seen ++ [⟨start, c :: key, escape a.value.toList⟩],
          raw.key ≠ b.name.toList := by
        intro b hb raw hraw
        rcases List.mem_append.1 hraw with hraw | hraw
        · exact hseen b (List.mem_cons_of_mem _ hb) raw hraw
        · rw [List.mem_singleton.1 hraw, ← hkey]
          intro heq
          exact hnew (List.mem_map.2 ⟨b, hb, (String.toList_inj.1 heq).symm⟩)
      have hnext := ih (fun b hb => hnames b (List.mem_cons_of_mem _ hb)) hnodup hapart
      have hall := readAttributes_of_readAttribute hdrop hread (expand_escape _) hnext
      simpa [← hkey] using hall

/-! ## Tags -/

/-- Characters among which no tag ends, so that they can be passed over as a whole. -/
def Neutral (cs : List Char) : Prop :=
  ∀ more, cutTag none (cs ++ more) = (cutTag none more).map fun (body, rest) => (cs ++ body, rest)

theorem neutral_nil : Neutral [] := by
  intro more
  cases h : cutTag none more <;> simp [h]

theorem Neutral.append {first second : List Char} (hfirst : Neutral first)
    (hsecond : Neutral second) : Neutral (first ++ second) := by
  intro more
  rw [List.append_assoc, hfirst, hsecond, Option.map_map]
  simp [Function.comp_def]

/-- Outside quotes only the end of a tag and quotes matter. -/
theorem neutral_of_plain {cs : List Char} (h : ∀ c ∈ cs, c ≠ '>' ∧ isQuote c = false) :
    Neutral cs := by
  induction cs with
  | nil => exact neutral_nil
  | cons c cs ih =>
    obtain ⟨hend, hquote⟩ := h c List.mem_cons_self
    intro more
    have hrest := ih (fun d hd => h d (List.mem_cons_of_mem _ hd)) more
    simp only [List.cons_append, cutTag, if_neg hend, hquote, Bool.false_eq_true, if_false, hrest,
      Option.map_map]
    rfl

theorem neutral_singleton {c : Char} (hend : c ≠ '>') (hquote : isQuote c = false) :
    Neutral [c] := by
  refine neutral_of_plain fun d hd => ?_
  rw [List.mem_singleton.1 hd]
  exact ⟨hend, hquote⟩

/-- Inside quotes nothing matters but the quote. -/
theorem cutTag_quoted {quote : Char} {value : List Char} (h : quote ∉ value) (more : List Char) :
    cutTag (some quote) (value ++ quote :: more) =
      (cutTag none more).map fun (body, rest) => (value ++ quote :: body, rest) := by
  induction value with
  | nil => simp [cutTag]
  | cons c value ih =>
    have hc : c ≠ quote := fun heq => h (heq ▸ List.mem_cons_self)
    have hrest := ih fun hmem => h (List.mem_cons_of_mem _ hmem)
    simp only [List.cons_append, cutTag, if_neg hc, hrest, Option.map_map]
    rfl

theorem neutral_quoted {value : List Char} (h : '\x22' ∉ value) :
    Neutral ('\x22' :: (value ++ ['\x22'])) := by
  intro more
  have hquote : isQuote '\x22' = true := by decide
  rw [List.cons_append, List.append_assoc, List.singleton_append, cutTag, if_neg (by decide),
    hquote, if_pos rfl, cutTag_quoted h, Option.map_map]
  simp [Function.comp_def]

theorem neutral_name {cs : List Char} (h : hasNameForm cs = true) : Neutral cs :=
  neutral_of_plain fun c hc =>
    ⟨ne_of_isNamePart (isNamePart_of_hasNameForm h c hc) (by decide),
      isQuote_of_isNamePart (isNamePart_of_hasNameForm h c hc)⟩

theorem neutral_blanks {blanks : List Char} (h : ∀ c ∈ blanks, isBlank c = true) :
    Neutral blanks := by
  refine neutral_of_plain fun c hc => ⟨?_, ?_⟩
  · rintro rfl
    exact absurd (h _ hc) (by decide)
  · cases hquote : isQuote c with
    | false => rfl
    | true =>
      have hblank := h c hc
      rcases Bool.or_eq_true_iff.1 hquote with heq | heq
      · rw [of_decide_eq_true heq] at hblank
        exact absurd hblank (by decide)
      · rw [of_decide_eq_true heq] at hblank
        exact absurd hblank (by decide)

section Inside

variable {attributes : List Attribute} {inside : List Char}
  (hwritten : WrittenAttributes attributes inside)

include hwritten

/-- No tag ends among written attributes. -/
theorem neutral_attributes (hnames : ∀ a ∈ attributes, hasNameForm a.name.toList = true) :
    Neutral inside := by
  induction hwritten with
  | nil hblanks => exact neutral_blanks hblanks
  | cons hne hblanks hrest ih =>
    rename_i blanks rest a as
    have hequals : Neutral ['='] := neutral_singleton (by decide) (by decide)
    have hattribute : Neutral (writeAttribute a) := by
      have hall := ((neutral_name (hnames a List.mem_cons_self)).append hequals).append
        (neutral_quoted (quote_not_mem_escape a.value.toList))
      simpa [writeAttribute] using hall
    exact ((neutral_blanks hblanks).append hattribute).append
      (ih fun b hb => hnames b (List.mem_cons_of_mem _ hb))

/-- Written attributes start with a blank. -/
theorem isBlank_head?_attributes : ∀ c ∈ inside.head?, isBlank c = true := by
  intro c hc
  cases hwritten with
  | nil hblanks => exact hblanks c (List.mem_of_mem_head? hc)
  | cons hne hblanks hrest =>
    rename_i blanks rest a as
    obtain ⟨b, bs, rfl⟩ := List.exists_cons_of_ne_nil hne
    rw [← Option.some.inj hc]
    exact hblanks b List.mem_cons_self

/-- Written attributes do not end like the tag of an empty element. -/
theorem getLast?_attributes : inside.getLast? ≠ some '/' := by
  induction hwritten with
  | nil hblanks =>
    intro hlast
    exact absurd (hblanks _ (List.mem_of_getLast? hlast)) (by decide)
  | cons hne hblanks hrest ih =>
    rename_i blanks rest a as
    have hquote : (blanks ++ writeAttribute a).getLast? = some '\x22' := by
      rw [writeAttribute, ← List.append_assoc]
      exact List.getLast?_concat
    intro hlast
    rw [List.getLast?_append, hquote] at hlast
    cases hend : rest.getLast? with
    | none =>
      rw [hend] at hlast
      exact absurd hlast (by decide)
    | some c =>
      rw [hend] at hlast ih
      exact ih hlast

end Inside

section StartTag

variable {name : String} (hname : hasNameForm name.toList = true) {attributes : List Attribute}
  {inside : List Char} (hwritten : WrittenAttributes attributes inside)

include hname hwritten

/-- The name of a start tag ends where its attributes start. -/
theorem takeWhile_name : (name.toList ++ inside).takeWhile (!isBlank ·) = name.toList ∧
    (name.toList ++ inside).dropWhile (!isBlank ·) = inside := by
  have hparts : ∀ c ∈ name.toList, (!isBlank c) = true := by
    intro c hc
    rw [isBlank_of_isNamePart (isNamePart_of_hasNameForm hname c hc)]
    rfl
  rw [List.takeWhile_append_of_pos hparts, List.dropWhile_append_of_pos hparts]
  have hhead := isBlank_head?_attributes hwritten
  cases inside with
  | nil => simp
  | cons c inside =>
    have hc : isBlank c = true := hhead c rfl
    simp [hc]

theorem tagName_written : tagName (name.toList ++ inside) = name := by
  rw [tagName, (takeWhile_name hname hwritten).1, String.ofList_toList]

/-- The attributes of a start tag are read back. -/
theorem tagAttributes_written (hnames : ∀ a ∈ attributes, hasNameForm a.name.toList = true)
    (hnodup : (attributes.map (·.name)).Nodup) :
    tagAttributes (name.toList ++ inside) = .ok attributes := by
  rw [tagAttributes, (takeWhile_name hname hwritten).2]
  exact readAttributes_written hwritten hnames hnodup
    (fun _ _ raw hraw => absurd hraw List.not_mem_nil) _ _

/-- A start tag does not end like the tag of an empty element. -/
theorem splitEmptyMark_written :
    splitEmptyMark (name.toList ++ inside) = (name.toList ++ inside, false) := by
  have hlast : (name.toList ++ inside).getLast? ≠ some '/' := by
    intro hlast
    rw [List.getLast?_append] at hlast
    cases hend : inside.getLast? with
    | none =>
      rw [hend, Option.none_or] at hlast
      have hpart := isNamePart_of_hasNameForm hname _ (List.mem_of_getLast? hlast)
      exact absurd hpart (by decide)
    | some c =>
      rw [hend, Option.some_or] at hlast
      exact getLast?_attributes hwritten (hend.trans hlast)
  rw [splitEmptyMark, if_neg hlast]

end StartTag

theorem splitEmptyMark_concat (content : List Char) :
    splitEmptyMark (content ++ ['/']) = (content, true) := by
  rw [splitEmptyMark, if_pos List.getLast?_concat, List.dropLast_concat]

/-- The name of an end tag is read back. -/
theorem endTagName_written {name : String} (hname : hasNameForm name.toList = true)
    {blanks : List Char} (hblanks : ∀ c ∈ blanks, isBlank c = true) :
    endTagName (name.toList ++ blanks) = name := by
  have hne : name.toList ≠ [] := by
    intro hnil
    rw [hnil] at hname
    exact nomatch hname
  have htrimmed : (((name.toList ++ blanks).reverse).dropWhile isBlank).reverse =
      name.toList := by
    have hlast : ∀ c ∈ blanks.reverse, isBlank c = true := fun c hc =>
      hblanks c (List.mem_reverse.1 hc)
    have hfirst : ¬ isBlank (name.toList.getLast hne) = true := by
      rw [isBlank_of_isNamePart
        (isNamePart_of_hasNameForm hname _ (List.getLast_mem hne))]
      exact Bool.false_ne_true
    rw [List.reverse_append, List.dropWhile_append_of_pos hlast,
      ← List.dropLast_concat_getLast hne, List.reverse_append, List.reverse_singleton,
      List.singleton_append, List.dropWhile_cons_of_neg hfirst, List.reverse_cons,
      List.reverse_reverse]
  unfold endTagName
  simp only [htrimmed]
  rw [if_neg (by simpa using hne), String.ofList_toList]

end Statechart.Markup
