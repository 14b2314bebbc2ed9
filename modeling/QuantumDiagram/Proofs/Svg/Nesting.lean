import QuantumDiagram.Proofs.Svg.Markup
import QuantumDiagram.Svg.Drawing

/-!
# Nested marks

Every tag of a drawing is written from fixed names and from values that need no escaping or are
escaped (`Svg.Writable`). Marks are nested if every group is closed, and the groups inside it before
it; the rows of nested marks are a block, however they are set (`Svg.Nested.block`).
-/

namespace QuantumDiagram

/-! ## Numbers -/

namespace Decimal

theorem plain_of_isDigit {t : Text} (h : t.all Char.isDigit = true) : t.Plain :=
  Text.Without.of_kind (List.all_eq_true.1 h) (by decide)

theorem plain_natural (n : Nat) : (natural n).Plain := plain_of_isDigit (all_isDigit_natural n)

theorem plain_integer : ∀ n : Int, (integer n).Plain
  | .ofNat n => plain_natural n
  | .negSucc n => Text.without_cons.2 ⟨by decide, plain_natural (n + 1)⟩

theorem plain_repeated_zero (n : Nat) : (Text.repeated n '0').Plain := by
  intro c hc
  rw [List.eq_of_mem_replicate hc]
  decide

theorem plain_positional (k : Nat) (place : Int) : (positional k place).Plain := by
  unfold positional
  split
  · exact Text.without_append.2 ⟨plain_natural k, plain_repeated_zero _⟩
  · have hpadded (n : Nat) : (Text.repeated n '0' ++ natural k).Plain :=
      Text.without_append.2 ⟨plain_repeated_zero n, plain_natural k⟩
    exact Text.without_append.2 ⟨(hpadded _).subset (List.take_subset _ _),
      Text.without_cons.2 ⟨by decide, (hpadded _).subset (List.drop_subset _ _)⟩⟩

theorem plain_floating (x : Float) : (floating x).Plain := by
  have hsigned {negative : Bool} {t : Text} (h : t.Plain) :
      Text.Plain (if negative then '-' :: t else t) := by
    split
    · exact Text.without_cons.2 ⟨by decide, h⟩
    · exact h
  unfold floating
  split
  · split
    · exact hsigned (by decide)
    · exact hsigned (plain_positional _ _)
  · exact hsigned (by decide)
  · decide

end Decimal

namespace Svg

open Markup

/-! ## Tags -/

section Tags

/-- The attributes have names that can stand in one tag, and values that can stand between quotes.
-/
structure Writable (attributes : List Attribute) : Prop where
  names : ∀ a ∈ attributes, isName a.1 = true
  nodup : (attributes.map Prod.fst).Nodup
  values : ∀ a ∈ attributes, AttributeValue a.2

variable {attributes : List Attribute} {name : Text}

theorem Writable.written (h : Writable attributes) :
    Attributes (attributes.map Prod.fst) (attributesText attributes) := by
  obtain ⟨hnames, hnodup, hvalues⟩ := h
  induction attributes with
  | nil => exact .nil
  | cons a rest ih =>
    obtain ⟨hname, hnames⟩ := List.forall_mem_cons.1 hnames
    obtain ⟨hvalue, hvalues⟩ := List.forall_mem_cons.1 hvalues
    obtain ⟨hnew, hnodup⟩ := List.nodup_cons.1 hnodup
    have h := Attributes.cons hname hvalue hnew (ih hnames hnodup hvalues)
    simpa [attributesText, Text.join] using h

theorem Writable.of_names (names : List Text) (hnames : names.all isName = true)
    (hnodup : names.Nodup) (h : attributes.map Prod.fst = names)
    (hvalues : ∀ a ∈ attributes, AttributeValue a.2) : Writable attributes where
  names a ha := List.all_eq_true.1 hnames a.1 (h ▸ List.mem_map_of_mem ha)
  nodup := h ▸ hnodup
  values := hvalues

theorem Writable.of_plain (names : List Text) (hnames : names.all isName = true)
    (hnodup : names.Nodup) (h : attributes.map Prod.fst = names)
    (hvalues : ∀ a ∈ attributes, a.2.Plain) : Writable attributes :=
  .of_names names hnames hnodup h fun a ha => .of_plain (hvalues a ha)

theorem block_emptyTag (hname : isName name = true) (h : Writable attributes) :
    Block (emptyTag name attributes) :=
  .of_empty hname h.written

theorem isElement_tags (hname : isName name = true) (h : Writable attributes) {inner : Text}
    (hinner : Content inner) :
    IsElement name (openTag name attributes ++ inner ++ closeTag name) := by
  refine ⟨_, _, inner, hname, h.written, hinner, ?_⟩
  simp [openTag, closeTag, Text.join]

end Tags

/-! ## Rows -/

section Rows

/-- What is set before a row and behind it. -/
theorem setRow_eq (pretty : Bool) (depth : Nat) : ∃ before behind : Text,
    (∀ c ∈ before ++ behind, c = ' ' ∨ c = '\n') ∧
      ∀ t, Document.setRow pretty ⟨depth, t⟩ = before ++ t ++ behind := by
  cases pretty with
  | false => exact ⟨[], [], by simp, fun t => by simp [Document.setRow]⟩
  | true =>
    refine ⟨Text.repeated (2 * depth) ' ', ['\n'], fun c hc => ?_, fun t => rfl⟩
    rcases List.mem_append.1 hc with hc | hc
    · exact .inl (List.eq_of_mem_replicate hc)
    · exact .inr (List.mem_singleton.1 hc)

/-- A row that is not indented begins with its text. -/
theorem setRow_zero (pretty : Bool) : ∃ behind : Text, (∀ c ∈ behind, c = ' ' ∨ c = '\n') ∧
    ∀ t, Document.setRow pretty ⟨0, t⟩ = t ++ behind := by
  cases pretty with
  | false => exact ⟨[], by simp, fun t => by simp [Document.setRow]⟩
  | true => exact ⟨['\n'], by simp, fun t => by simp [Document.setRow, Text.repeated]⟩

theorem block_of_blank {t : Text} (h : ∀ c ∈ t, c = ' ' ∨ c = '\n') : Block t :=
  .of_sealed (.of_blank h)

theorem block_setRow (pretty : Bool) {r : Row} (h : Block r.text) :
    Block (Document.setRow pretty r) := by
  obtain ⟨before, behind, hblank, hset⟩ := setRow_eq pretty r.depth
  obtain ⟨hbefore, hbehind⟩ := List.forall_mem_append.1 hblank
  rw [hset r.text]
  exact ((block_of_blank hbefore).append h).append (block_of_blank hbehind)

/-- What is set between the rows of two tags is inside the element of the tags. -/
theorem block_between (name : Text) {attributes : List Attribute} (hname : isName name = true)
    (h : Writable attributes) (pretty : Bool) (depth : Nat) (indent : Text) {inner : Text}
    (hindent : ∀ c ∈ indent, c = ' ' ∨ c = '\n') (hinner : Block inner) :
    Block (Document.setRow pretty ⟨depth, indent ++ openTag name attributes⟩ ++
      (inner ++ Document.setRow pretty ⟨depth, indent ++ closeTag name⟩)) := by
  obtain ⟨before, behind, hblank, hset⟩ := setRow_eq pretty depth
  obtain ⟨hbefore, hbehind⟩ := List.forall_mem_append.1 hblank
  have hinside : Block (behind ++ inner ++ (before ++ indent)) :=
    ((block_of_blank hbehind).append hinner).append
      ((block_of_blank hbefore).append (block_of_blank hindent))
  have helement := Block.of_element (isElement_tags hname h hinside.content)
  have hall := (((block_of_blank hbefore).append (block_of_blank hindent)).append
    helement).append (block_of_blank hbehind)
  rw [hset, hset]
  simpa only [List.append_assoc] using hall

theorem block_blockRows {name : Text} (hname : isName name = true) {contents : List Text}
    (h : ∀ t ∈ contents, Block t) (pretty : Bool) :
    Block ((blockRows name contents).flatMap (Document.setRow pretty)) := by
  unfold blockRows
  split
  · exact .nil
  have hblank (n : Nat) : ∀ c ∈ Text.repeated n ' ', c = ' ' ∨ c = '\n' :=
    fun c hc => .inl (List.eq_of_mem_replicate hc)
  have hinner : Block ((contents.map fun t => (⟨0, "    ".toList ++ t⟩ : Row)).flatMap
      (Document.setRow pretty)) := by
    refine .flatMap fun r hr => ?_
    obtain ⟨t, ht, rfl⟩ := List.mem_map.1 hr
    exact block_setRow pretty ((block_of_blank (hblank 4)).append (h t ht))
  have hnone : Writable [] := ⟨by simp, by simp, by simp⟩
  rw [List.flatMap_cons, List.flatMap_append, List.flatMap_singleton]
  exact block_between name hname hnone pretty 0 _ (hblank 2) hinner

end Rows

/-! ## Marks -/

section Marks

/-- A mark by itself: a label of any text that XML admits, or one without anything that has to be
escaped. -/
def Mark.IsPlain : Mark → Prop
  | .rect _ kind => kind.Plain
  | .circle _ _ kind => kind.Plain
  | .line _ _ kind => kind.Plain
  | .path commands kind => commands.Plain ∧ kind.Plain
  | .label content _ => content.Legal
  | .arrow .. => True
  | .openGroup .. => False
  | .closeGroup => False

/-- Marks whose groups are closed in the order of nesting. -/
inductive Nested (s : Settings) : List Mark → Prop
  | nil : Nested s []
  | mark {m : Mark} {rest : List Mark} : m.IsPlain → Nested s rest → Nested s (m :: rest)
  | group {id : Option Text} {classes : List Text} {attributes attributes' : List Attribute}
      {inner rest : List Mark} : Writable attributes' →
      markText s (.openGroup id classes attributes) = openTag "g" attributes' →
      Nested s inner → Nested s rest →
      Nested s (.openGroup id classes attributes :: (inner ++ .closeGroup :: rest))

variable {s : Settings} {m : Mark} {marks marks' : List Mark}

theorem Nested.append (h : Nested s marks) (h' : Nested s marks') : Nested s (marks ++ marks') := by
  induction h with
  | nil => exact h'
  | mark hm _ ih => exact .mark hm ih
  | group hattributes hopen hinner _ _ ih =>
    rw [List.cons_append, List.append_assoc, List.cons_append]
    exact .group hattributes hopen hinner ih

theorem Nested.of_forall (h : ∀ m ∈ marks, m.IsPlain) : Nested s marks := by
  induction marks with
  | nil => exact .nil
  | cons m marks ih =>
    obtain ⟨hm, hmarks⟩ := List.forall_mem_cons.1 h
    exact .mark hm (ih hmarks)

theorem Nested.flatMap {α : Type} {f : α → List Mark} {l : List α} (h : ∀ a ∈ l, Nested s (f a)) :
    Nested s (l.flatMap f) := by
  induction l with
  | nil => exact .nil
  | cons a l ih =>
    obtain ⟨ha, hl⟩ := List.forall_mem_cons.1 h
    exact ha.append (ih hl)

theorem plain_className (hs : (s.className []).Plain) {name : Text} (h : name.Plain) :
    (s.className name).Plain := by
  rw [Settings.className, List.append_nil] at hs
  exact Text.without_append.2 ⟨hs, h⟩

theorem block_markText (hs : (s.className []).Plain) (h : m.IsPlain) :
    Block (markText s m) := by
  cases m with
  | rect b kind =>
    refine block_emptyTag (by decide) (.of_plain ["class", "x", "y", "width", "height"]
      (by decide) (by decide) rfl ?_)
    simp [plain_className hs h, Decimal.plain_integer]
  | circle center radius kind =>
    refine block_emptyTag (by decide) (.of_plain ["class", "cx", "cy", "r"]
      (by decide) (by decide) rfl ?_)
    simp [plain_className hs h, Decimal.plain_integer]
  | line start stop kind =>
    refine block_emptyTag (by decide) (.of_plain ["class", "x1", "y1", "x2", "y2"]
      (by decide) (by decide) rfl ?_)
    simp [endsOf, plain_className hs h, Decimal.plain_integer]
  | path commands kind =>
    refine block_emptyTag (by decide) (.of_plain ["class", "d"] (by decide) (by decide) rfl ?_)
    simp [plain_className hs h.2, h.1]
  | label content middle =>
    have hattributes : Writable [("class", s.className "text"), ("x", Decimal.integer middle.x),
        ("y", Decimal.integer middle.y), ("text-anchor", "middle"),
        ("dominant-baseline", "middle")] := by
      refine .of_plain ["class", "x", "y", "text-anchor", "dominant-baseline"]
        (by decide) (by decide) rfl ?_
      simp +decide [plain_className hs, Decimal.plain_integer]
    have helement : IsElement "text" _ :=
      isElement_tags (by decide) hattributes (.data (.escape h))
    simpa [markText, Text.join] using Block.of_element helement
  | arrow start stop =>
    refine block_emptyTag (by decide) (.of_plain
      ["class", "x1", "y1", "x2", "y2", "marker-start", "marker-end"]
      (by decide) (by decide) rfl ?_)
    simp +decide [endsOf, Text.join, plain_className hs, Decimal.plain_integer]
  | openGroup id classes attributes => exact h.elim
  | closeGroup => exact h.elim

/-- Nested marks are a block, however deep they are set and whatever marks come behind them. -/
theorem Nested.block (hs : (s.className []).Plain) (pretty : Bool) (h : Nested s marks)
    (depth : Nat) (behind : List Mark) : ∃ t, Block t ∧
      (markRows s depth (marks ++ behind)).flatMap (Document.setRow pretty) =
        t ++ (markRows s depth behind).flatMap (Document.setRow pretty) := by
  induction h generalizing depth behind with
  | nil => exact ⟨[], .nil, rfl⟩
  | @mark m rest hm _ ih =>
    obtain ⟨t, ht, hrest⟩ := ih depth behind
    have hrows : markRows s depth (m :: (rest ++ behind)) =
        ⟨depth, markText s m⟩ :: markRows s depth (rest ++ behind) := by
      cases m with
      | openGroup => exact hm.elim
      | closeGroup => exact hm.elim
      | _ => rfl
    have hrow : Block (Document.setRow pretty ⟨depth, markText s m⟩) :=
      block_setRow pretty (block_markText hs hm)
    refine ⟨_, hrow.append ht, ?_⟩
    rw [List.cons_append, hrows, List.flatMap_cons, hrest, List.append_assoc]
  | @group id classes attributes attributes' inner rest hattributes hopen _ _ ihinner ih =>
    obtain ⟨t, ht, hinner⟩ := ihinner (depth + 1) (.closeGroup :: (rest ++ behind))
    obtain ⟨t', ht', hrest⟩ := ih depth behind
    have hgroup := block_between "g" (by decide) hattributes pretty depth [] (by simp) ht
    refine ⟨_, hgroup.append ht', ?_⟩
    rw [List.cons_append, List.append_assoc, List.cons_append]
    show Document.setRow pretty ⟨depth, markText s (.openGroup id classes attributes)⟩ ++
      (markRows s (depth + 1) (inner ++ .closeGroup :: (rest ++ behind))).flatMap _ = _
    rw [hinner, hopen]
    show _ ++ (t ++ (Document.setRow pretty ⟨depth, closeTag "g"⟩ ++
      (markRows s depth (rest ++ behind)).flatMap _)) = _
    rw [hrest]
    simp only [List.nil_append, List.append_assoc]

end Marks

end Svg

end QuantumDiagram
