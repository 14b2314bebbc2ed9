import QuantumDiagram.Svg.Escape

/-!
# The grammar of markup

A well-formed text is one element, whose content is character data and elements, each of them closed
before the element around it. Character data has no `<`, has `&` only where an entity begins, and
does not have `]]>`; nowhere is there a character that XML excludes. This is the grammar of XML 1.0
for texts without comments, instructions, CDATA sections and numeric references, with names of ASCII
characters and values in double quotes. It says nothing about how a text is made: it is the measure
for the documents that are written.
-/

namespace QuantumDiagram

/-! ## Texts without some characters -/

namespace Text

/-- The text has none of the characters. -/
def Without (t : Text) (forbidden : List Char) : Prop := ∀ c ∈ t, c ∉ forbidden

instance (t : Text) (forbidden : List Char) : Decidable (t.Without forbidden) :=
  decidable_of_iff (t.all (!forbidden.contains ·) = true) (by simp [Without])

variable {s t : Text} {forbidden : List Char}

theorem Without.mono {fewer : List Char} (h : t.Without forbidden) (hsub : fewer ⊆ forbidden) :
    t.Without fewer :=
  fun c hc hfew => h c hc (hsub hfew)

/-- A text all of whose characters are of one kind has none of another. -/
theorem Without.of_kind {kind : Char → Bool} (h : ∀ c ∈ t, kind c = true)
    (hnone : forbidden.any kind = false) : t.Without forbidden :=
  fun c hc hforbidden => List.any_eq_false.1 hnone c hforbidden (h c hc)

theorem Without.subset (h : t.Without forbidden) (hsub : s ⊆ t) : s.Without forbidden :=
  fun c hc => h c (hsub hc)

@[simp] theorem without_nil : Without [] forbidden := fun _ h => nomatch h

@[simp] theorem without_cons {c : Char} :
    Without (c :: t) forbidden ↔ c ∉ forbidden ∧ t.Without forbidden :=
  List.forall_mem_cons

@[simp] theorem without_append :
    Without (s ++ t) forbidden ↔ s.Without forbidden ∧ t.Without forbidden :=
  List.forall_mem_append

theorem without_join {ts : List Text} :
    (Text.join ts).Without forbidden ↔ ∀ t ∈ ts, t.Without forbidden := by
  induction ts with
  | nil => simp [Text.join]
  | cons t ts ih =>
    rw [List.forall_mem_cons, ← ih]
    exact without_append

theorem without_flatMap {α : Type} {f : α → Text} {l : List α} :
    Without (l.flatMap f) forbidden ↔ ∀ a ∈ l, (f a).Without forbidden := by
  rw [List.flatMap_def]
  exact without_join.trans List.forall_mem_map

theorem without_joinWith {sep : Text} {ts : List Text} (hsep : sep.Without forbidden)
    (h : ∀ t ∈ ts, t.Without forbidden) : (Text.joinWith sep ts).Without forbidden := by
  induction ts with
  | nil => exact without_nil
  | cons t ts ih =>
    obtain ⟨ht, hts⟩ := List.forall_mem_cons.1 h
    cases ts with
    | nil => exact without_append.2 ⟨ht, without_nil⟩
    | cons u ts => exact without_append.2 ⟨ht, without_append.2 ⟨hsep, ih hts⟩⟩

/-- The text has no `]]>`, which ends a CDATA section and may stand nowhere else between tags. -/
def NoSectionEnd (t : Text) : Prop := ¬"]]>".toList <:+: t

theorem noSectionEnd_cons_iff {c : Char} :
    NoSectionEnd (c :: t) ↔ ¬"]]>".toList <+: c :: t ∧ t.NoSectionEnd := by
  rw [NoSectionEnd, List.infix_cons_iff, not_or, NoSectionEnd]

instance NoSectionEnd.decidable : (t : Text) → Decidable t.NoSectionEnd
  | [] => .isTrue (by simp [NoSectionEnd])
  | _ :: t =>
    have := NoSectionEnd.decidable t
    decidable_of_iff _ noSectionEnd_cons_iff.symm

theorem NoSectionEnd.of_isInfix (h : t.NoSectionEnd) (hs : s <:+: t) : s.NoSectionEnd :=
  fun hend => h (hend.trans hs)

theorem noSectionEnd_of_without (h : t.Without ['>']) : t.NoSectionEnd :=
  fun hend => h '>' (hend.subset (by decide)) (List.mem_singleton_self _)

theorem noSectionEnd_cons {c : Char} (hc : c ≠ ']') :
    NoSectionEnd (c :: t) ↔ t.NoSectionEnd := by
  have hfirst : ¬"]]>".toList <+: c :: t := fun h => hc (List.cons_prefix_cons.1 h).1.symm
  rw [noSectionEnd_cons_iff, and_iff_right hfirst]

/-- A character that is not in `]]>` keeps apart what is on its two sides. -/
theorem noSectionEnd_append_cons {c : Char} (hc : c ∉ [']', '>']) :
    NoSectionEnd (s ++ c :: t) ↔ s.NoSectionEnd ∧ t.NoSectionEnd := by
  obtain ⟨hbracket, hangle⟩ : c ≠ ']' ∧ c ≠ '>' := by simpa using hc
  induction s with
  | nil => exact (noSectionEnd_cons hbracket).trans (and_iff_right (by decide)).symm
  | cons d s ih =>
    have hfirst : "]]>".toList <+: d :: (s ++ c :: t) ↔ "]]>".toList <+: d :: s := by
      match s with
      | [] => simp [List.cons_prefix_cons, hbracket.symm]
      | [e] => simp [List.cons_prefix_cons, hangle.symm]
      | e :: f :: s => simp [List.cons_prefix_cons]
    rw [List.cons_append, noSectionEnd_cons_iff, hfirst, noSectionEnd_cons_iff, and_assoc]
    exact and_congr_right fun _ => ih

end Text

namespace Markup

/-! ## The grammar -/

/-- The characters that XML excludes: the controls other than tab, line feed and carriage return,
and two code points that are no characters. -/
def excluded : List Char :=
  ((List.range 0x20).map Char.ofNat).filter (fun c => c ≠ '\t' ∧ c ≠ '\n' ∧ c ≠ '\r') ++
    [Char.ofNat 0xFFFE, Char.ofNat 0xFFFF]

def entities : List Text := ["&amp;", "&lt;", "&gt;", "&quot;", "&apos;"]

/-- Characters without `<`, and with `&` only where an entity begins. -/
inductive Characters : Text → Prop
  | nil : Characters []
  | char {c : Char} {t : Text} : c ∉ '<' :: '&' :: excluded → Characters t → Characters (c :: t)
  | entity {e t : Text} : e ∈ entities → Characters t → Characters (e ++ t)

/-- What may stand between two tags that are next to one another. -/
structure CharacterData (t : Text) : Prop where
  characters : Characters t
  noSectionEnd : t.NoSectionEnd

/-- What may stand between double quotes. -/
structure AttributeValue (t : Text) : Prop where
  characters : Characters t
  unquoted : t.Without ['"']

def isName : Text → Bool
  | [] => false
  | c :: rest =>
    (c.isAlpha || c == '_') && rest.all fun d => d.isAlphanum || d == '-' || d == '_' || d == '.'

/-- The attributes of a tag, no two of them with the same name. -/
inductive Attributes : List Text → Text → Prop
  | nil : Attributes [] []
  | cons {name value t : Text} {names : List Text} : isName name = true → AttributeValue value →
      name ∉ names → Attributes names t →
      Attributes (name :: names) (Text.join [" ", name, "=\"", value, "\"", t])

/-- What may stand inside an element: character data, then elements with character data behind each
of them. -/
inductive Content : Text → Prop
  | data {t : Text} : CharacterData t → Content t
  | empty {before name attributes rest : Text} {names : List Text} : CharacterData before →
      isName name = true → Attributes names attributes → Content rest →
      Content (Text.join [before, "<", name, attributes, "/>", rest])
  | element {before name attributes inner rest : Text} {names : List Text} :
      CharacterData before → isName name = true → Attributes names attributes → Content inner →
      Content rest →
      Content (Text.join [before, "<", name, attributes, ">", inner, "</", name, ">", rest])

/-- One element and nothing else. -/
def IsElement (name t : Text) : Prop :=
  ∃ names attributes inner, isName name = true ∧ Attributes names attributes ∧ Content inner ∧
    t = Text.join ["<", name, attributes, ">", inner, "</", name, ">"]

/-- An element behind an XML declaration. -/
def IsDocument (name t : Text) : Prop :=
  ∃ blanks root, (∀ c ∈ blanks, c = ' ' ∨ c = '\n') ∧ IsElement name root ∧
    t = Text.join ["<?xml version=\"1.0\" encoding=\"UTF-8\"?>", blanks, root]

end Markup

/-- The text has no character that XML excludes. -/
abbrev Text.Legal (t : Text) : Prop := t.Without Markup.excluded

/-- The text has no character that is escaped or that XML excludes. -/
abbrev Text.Plain (t : Text) : Prop :=
  t.Without ('<' :: '>' :: '&' :: '"' :: '\'' :: Markup.excluded)

theorem Text.Plain.legal {t : Text} (h : t.Plain) : t.Legal := h.mono fun _ hc => by simp [hc]

namespace Markup

/-! ## Character data -/

section Data

variable {s t : Text}

theorem Characters.append (hs : Characters s) (ht : Characters t) : Characters (s ++ t) := by
  induction hs with
  | nil => exact ht
  | char hc _ ih => exact .char hc ih
  | entity he _ ih =>
    rw [List.append_assoc]
    exact .entity he ih

theorem Characters.of_without (h : t.Without ('<' :: '&' :: excluded)) : Characters t := by
  induction t with
  | nil => exact .nil
  | cons c t ih =>
    obtain ⟨hc, ht⟩ := Text.without_cons.1 h
    exact .char hc (ih ht)

theorem Characters.without (h : Characters t) : t.Without ('<' :: excluded) := by
  induction h with
  | nil => exact Text.without_nil
  | char hc _ ih =>
    simp only [List.mem_cons, not_or] at hc
    exact Text.without_cons.2 ⟨by simp [hc], ih⟩
  | entity he _ ih =>
    have hentity : ∀ e ∈ entities, e.Without ('<' :: excluded) := by decide
    exact Text.without_append.2 ⟨hentity _ he, ih⟩

theorem CharacterData.nil : CharacterData [] := ⟨.nil, by decide⟩

theorem CharacterData.of_plain (h : t.Plain) : CharacterData t where
  characters := .of_without (h.mono (by grind))
  noSectionEnd := Text.noSectionEnd_of_without (h.mono (by simp))

theorem AttributeValue.of_plain (h : t.Plain) : AttributeValue t where
  characters := .of_without (h.mono (by grind))
  unquoted := h.mono (by simp)

theorem escapeChar_written {c : Char} (h : c ∉ excluded) : Characters (Svg.escapeChar c) ∧
    (Svg.escapeChar c).Without ['>', '"'] := by
  have hentity {e : Text} (he : e ∈ entities) : Characters e := by
    have := Characters.entity he .nil
    rwa [List.append_nil] at this
  unfold Svg.escapeChar
  split
  · exact ⟨hentity (by decide), by decide⟩
  · exact ⟨hentity (by decide), by decide⟩
  · exact ⟨hentity (by decide), by decide⟩
  · exact ⟨hentity (by decide), by decide⟩
  · exact ⟨hentity (by decide), by decide⟩
  · next hamp hlt hgt hquote _ =>
    have hc : c ∉ '<' :: '&' :: excluded := by simpa [h] using And.intro hlt hamp
    exact ⟨.char hc .nil, by simpa using And.intro hgt hquote⟩

/-- What is escaped has neither the mark of a quote nor that of the end of a tag. -/
theorem escape_written (h : t.Legal) : Characters (Svg.escape t) ∧
    (Svg.escape t).Without ['>', '"'] := by
  refine ⟨?_, Text.without_flatMap.2 fun c hc => (escapeChar_written (h c hc)).2⟩
  induction t with
  | nil => exact .nil
  | cons c t ih =>
    obtain ⟨hc, ht⟩ := Text.without_cons.1 h
    exact (escapeChar_written hc).1.append (ih ht)

theorem AttributeValue.escape (h : t.Legal) : AttributeValue (Svg.escape t) where
  characters := (escape_written h).1
  unquoted := (escape_written h).2.mono (by decide)

theorem CharacterData.escape (h : t.Legal) : CharacterData (Svg.escape t) where
  characters := (escape_written h).1
  noSectionEnd := Text.noSectionEnd_of_without ((escape_written h).2.mono (by decide))

/-- Whatever character data comes behind the text, both together are character data. -/
def Sealed (t : Text) : Prop := ∀ u, CharacterData u → CharacterData (t ++ u)

/-- What no character of a text that seals may be. -/
def unsealing : List Char := '<' :: '&' :: ']' :: '>' :: excluded

theorem Sealed.data (h : Sealed t) : CharacterData t := by
  have := h [] .nil
  rwa [List.append_nil] at this

theorem Sealed.append (hs : Sealed s) (ht : Sealed t) : Sealed (s ++ t) := by
  intro u hu
  rw [List.append_assoc]
  exact hs _ (ht u hu)

theorem Sealed.of_without (h : t.Without unsealing) : Sealed t := by
  intro u hu
  induction t with
  | nil => exact hu
  | cons c t ih =>
    obtain ⟨hc, ht⟩ := Text.without_cons.1 h
    obtain ⟨hcharacters, hend⟩ := ih ht
    simp only [unsealing, List.mem_cons, not_or] at hc
    exact ⟨.char (by simp [hc]) hcharacters, (Text.noSectionEnd_cons hc.2.2.1).2 hend⟩

theorem Sealed.of_blank (h : ∀ c ∈ t, c = ' ' ∨ c = '\n') : Sealed t :=
  .of_without fun c hc => by rcases h c hc with rfl | rfl <;> decide

/-- Character data is sealed by the text behind it. -/
theorem CharacterData.sealed (hs : CharacterData s) (ht : t.Without unsealing) (hne : t ≠ []) :
    Sealed (s ++ t) := by
  intro u hu
  obtain ⟨c, rest, rfl⟩ := List.exists_cons_of_ne_nil hne
  obtain ⟨hcharacters, hend⟩ := Sealed.of_without ht u hu
  obtain ⟨hc, -⟩ := Text.without_cons.1 ht
  simp only [unsealing, List.mem_cons, not_or] at hc
  rw [List.append_assoc]
  refine ⟨hs.characters.append hcharacters, ?_⟩
  refine (Text.noSectionEnd_append_cons (by simp [hc])).2 ⟨hs.noSectionEnd, ?_⟩
  exact (Text.noSectionEnd_cons hc.2.2.1).1 hend

end Data

/-- A name has no character that ends it, and none that XML excludes. -/
theorem without_of_isName (h : isName t = true) : t.Without ('>' :: '"' :: excluded) := by
  cases t with
  | nil => cases h
  | cons first rest =>
    obtain ⟨hfirst, hrest⟩ := Bool.and_eq_true_iff.1 h
    have hletter : ('>' :: '"' :: excluded).any (fun c => c.isAlpha || c == '_') = false := by
      decide
    exact Text.without_cons.2 ⟨fun hmem => List.any_eq_false.1 hletter first hmem hfirst,
      .of_kind (List.all_eq_true.1 hrest) (by decide)⟩

/-! ## Blocks -/

section Blocks

variable {s t name attributes inner : Text} {names : List Text}

/-- Whatever content comes behind the text, both together are content. -/
def Block (t : Text) : Prop := ∀ u, Content u → Content (t ++ u)

theorem Block.content (h : Block t) : Content t := by
  have := h [] (.data .nil)
  rwa [List.append_nil] at this

theorem Block.nil : Block [] := fun _ hu => hu

theorem Block.append (hs : Block s) (ht : Block t) : Block (s ++ t) := by
  intro u hu
  rw [List.append_assoc]
  exact hs _ (ht u hu)

theorem Block.flatMap {α : Type} {f : α → Text} {l : List α} (h : ∀ a ∈ l, Block (f a)) :
    Block (l.flatMap f) := by
  induction l with
  | nil => exact .nil
  | cons a l ih =>
    obtain ⟨ha, hl⟩ := List.forall_mem_cons.1 h
    exact ha.append (ih hl)

theorem Block.of_sealed (h : Sealed t) : Block t := by
  intro u hu
  cases hu with
  | data hdata => exact .data (h _ hdata)
  | empty hbefore hname hattributes hrest =>
    have := Content.empty (h _ hbefore) hname hattributes hrest
    simpa [Text.join] using this
  | element hbefore hname hattributes hinner hrest =>
    have := Content.element (h _ hbefore) hname hattributes hinner hrest
    simpa [Text.join] using this

theorem Block.of_empty (hname : isName name = true) (h : Attributes names attributes) :
    Block (Text.join ["<", name, attributes, "/>"]) := by
  intro u hu
  have := Content.empty .nil hname h hu
  simpa [Text.join] using this

theorem Block.of_element (h : IsElement name t) : Block t := by
  obtain ⟨names, attributes, inner, hname, hattributes, hinner, rfl⟩ := h
  intro u hu
  have := Content.element .nil hname hattributes hinner hu
  simpa [Text.join] using this

end Blocks

/-! ## Characters of a document -/

section Legal

variable {t name attributes : Text} {names : List Text}

theorem legal_of_isName (h : isName name = true) : name.Legal :=
  (without_of_isName h).mono (by simp)

theorem Characters.legal (h : Characters t) : t.Legal := h.without.mono (by simp)

theorem Attributes.legal (h : Attributes names attributes) : attributes.Legal := by
  induction h with
  | nil => exact Text.without_nil
  | cons hname hvalue _ _ ih =>
    refine Text.without_join.2 ?_
    simp only [List.forall_mem_cons]
    exact ⟨by decide, legal_of_isName hname, by decide, hvalue.characters.legal, by decide, ih,
      by simp⟩

theorem Content.legal (h : Content t) : t.Legal := by
  induction h with
  | data hdata => exact hdata.characters.legal
  | empty hbefore hname hattributes _ ih =>
    refine Text.without_join.2 ?_
    simp only [List.forall_mem_cons]
    exact ⟨hbefore.characters.legal, by decide, legal_of_isName hname, hattributes.legal, by decide,
      ih, by simp⟩
  | element hbefore hname hattributes _ _ ihinner ih =>
    refine Text.without_join.2 ?_
    simp only [List.forall_mem_cons]
    exact ⟨hbefore.characters.legal, by decide, legal_of_isName hname, hattributes.legal, by decide,
      ihinner, by decide, legal_of_isName hname, by decide, ih, by simp⟩

/-- A document has no character that XML excludes. -/
theorem IsDocument.legal (h : IsDocument name t) : t.Legal := by
  obtain ⟨blanks, root, hblanks, hroot, rfl⟩ := h
  refine Text.without_join.2 ?_
  simp only [List.forall_mem_cons]
  exact ⟨by decide, (Sealed.of_blank hblanks).data.characters.legal,
    (Block.of_element hroot).content.legal, by simp⟩

end Legal

/-! ## What stands between tags -/

section Between

/-- Where a character stands: between tags, in a tag, or in a value inside a tag. -/
inductive Place where
  | text
  | tag
  | value

/-- What stands between the tags of a text, with `<` in place of each tag. -/
def between : Place → Text → Text
  | _, [] => []
  | .text, c :: t => c :: between (if c = '<' then .tag else .text) t
  | .tag, c :: t => between (if c = '>' then .text else if c = '"' then .value else .tag) t
  | .value, c :: t => between (if c = '"' then .tag else .value) t

variable {s t name attributes : Text} {names : List Text}

theorem between_text_append (h : s.Without ['<']) (t : Text) :
    between .text (s ++ t) = s ++ between .text t := by
  induction s with
  | nil => rfl
  | cons c s ih =>
    obtain ⟨hc, hs⟩ := Text.without_cons.1 h
    have hne : c ≠ '<' := by simpa using hc
    rw [List.cons_append, between, if_neg hne, ih hs, List.cons_append]

theorem between_tag_append (h : s.Without ['>', '"']) (t : Text) :
    between .tag (s ++ t) = between .tag t := by
  induction s with
  | nil => rfl
  | cons c s ih =>
    obtain ⟨hc, hs⟩ := Text.without_cons.1 h
    obtain ⟨hend, hquote⟩ : c ≠ '>' ∧ c ≠ '"' := by simpa using hc
    rw [List.cons_append, between, if_neg hend, if_neg hquote, ih hs]

theorem between_value_append (h : s.Without ['"']) (t : Text) :
    between .value (s ++ t) = between .value t := by
  induction s with
  | nil => rfl
  | cons c s ih =>
    obtain ⟨hc, hs⟩ := Text.without_cons.1 h
    have hquote : c ≠ '"' := by simpa using hc
    rw [List.cons_append, between, if_neg hquote, ih hs]

theorem Attributes.between_tag (h : Attributes names attributes) (t : Text) :
    between .tag (attributes ++ t) = between .tag t := by
  induction h with
  | nil => rfl
  | @cons name value rest names hname hvalue _ _ ih =>
    have hplain : Text.Without name ['>', '"'] := (without_of_isName hname).mono (by simp)
    have hbefore : Text.Without (' ' :: (name ++ ['='])) ['>', '"'] := by simp [hplain]
    have hsplit : Text.join [" ", name, "=\"", value, "\"", rest] ++ t =
        (' ' :: (name ++ ['='])) ++ '"' :: (value ++ '"' :: (rest ++ t)) := by simp [Text.join]
    rw [hsplit, between_tag_append hbefore]
    show between .value (value ++ '"' :: (rest ++ t)) = _
    rw [between_value_append hvalue.unquoted]
    exact ih

/-- A tag is passed over. -/
theorem between_tag (hname : isName name = true) (h : Attributes names attributes) (t : Text) :
    between .text ('<' :: (name ++ (attributes ++ '>' :: t))) = '<' :: between .text t := by
  show '<' :: between .tag (name ++ (attributes ++ '>' :: t)) = _
  rw [between_tag_append ((without_of_isName hname).mono (by simp)), h.between_tag]
  rfl

theorem between_emptyTag (hname : isName name = true) (h : Attributes names attributes)
    (t : Text) :
    between .text ('<' :: (name ++ (attributes ++ '/' :: '>' :: t))) = '<' :: between .text t := by
  show '<' :: between .tag (name ++ (attributes ++ '/' :: '>' :: t)) = _
  rw [between_tag_append ((without_of_isName hname).mono (by simp)), h.between_tag]
  rfl

theorem between_closeTag (hname : isName name = true) (t : Text) :
    between .text ('<' :: '/' :: (name ++ '>' :: t)) = '<' :: between .text t := by
  show '<' :: between .tag (name ++ '>' :: t) = _
  rw [between_tag_append ((without_of_isName hname).mono (by simp))]
  rfl

/-- Content keeps its tags apart from what comes behind it, which begins with a tag if it is not
empty. -/
theorem Content.noSectionEnd_between (h : Content t) {u : Text} (hstart : ∀ c ∈ u.head?, c = '<')
    (hu : (between .text u).NoSectionEnd) : (between .text (t ++ u)).NoSectionEnd := by
  induction h generalizing u with
  | data hdata =>
    rw [between_text_append (hdata.characters.without.mono (by simp))]
    cases u with
    | nil => simpa [between] using hdata.noSectionEnd
    | cons c u =>
      obtain rfl := hstart c rfl
      exact (Text.noSectionEnd_append_cons (by decide)).2
        ⟨hdata.noSectionEnd, (Text.noSectionEnd_cons (by decide)).1 hu⟩
  | @empty before name attributes rest names hbefore hname hattributes _ ih =>
    have hsplit : Text.join [before, "<", name, attributes, "/>", rest] ++ u =
        before ++ '<' :: (name ++ (attributes ++ '/' :: '>' :: (rest ++ u))) := by simp [Text.join]
    rw [hsplit, between_text_append (hbefore.characters.without.mono (by simp)),
      between_emptyTag hname hattributes]
    exact (Text.noSectionEnd_append_cons (by decide)).2 ⟨hbefore.noSectionEnd, ih hstart hu⟩
  | @element before name attributes inner rest names hbefore hname hattributes _ _ ihinner ih =>
    have hsplit :
        Text.join [before, "<", name, attributes, ">", inner, "</", name, ">", rest] ++ u =
          before ++ '<' :: (name ++ (attributes ++ '>' ::
            (inner ++ '<' :: '/' :: (name ++ '>' :: (rest ++ u))))) := by simp [Text.join]
    rw [hsplit, between_text_append (hbefore.characters.without.mono (by simp)),
      between_tag hname hattributes]
    refine (Text.noSectionEnd_append_cons (by decide)).2 ⟨hbefore.noSectionEnd, ?_⟩
    refine ihinner (by simp) ?_
    rw [between_closeTag hname]
    exact (Text.noSectionEnd_cons (by decide)).2 (ih hstart hu)

/-- Between the tags of an element there is no `]]>`. -/
theorem IsElement.noSectionEnd_between (h : IsElement name t) :
    (between .text t).NoSectionEnd := by
  have := (Block.of_element h).content.noSectionEnd_between (u := []) (by simp) (by decide)
  rwa [List.append_nil] at this

theorem IsDocument.noSectionEnd_between (h : IsDocument name t) :
    (between .text t).NoSectionEnd := by
  obtain ⟨blanks, root, hblanks, hroot, rfl⟩ := h
  have hcontent : Content (blanks ++ root) :=
    ((Block.of_sealed (.of_blank hblanks)).append (.of_element hroot)).content
  have hbetween := hcontent.noSectionEnd_between (u := []) (by simp) (by decide)
  rw [List.append_nil] at hbetween
  show Text.NoSectionEnd ('<' :: between .text (blanks ++ (root ++ [])))
  rw [List.append_nil]
  exact (Text.noSectionEnd_cons (by decide)).2 hbetween

end Between

end Markup

end QuantumDiagram
