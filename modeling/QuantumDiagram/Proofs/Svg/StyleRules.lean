import Mathlib.Data.Char
import Mathlib.Data.List.Lex
import QuantumDiagram.Program.Run
import QuantumDiagram.Proofs.Outcome
import QuantumDiagram.Proofs.Svg.Nesting
import QuantumDiagram.Stylesheet.Reading

/-!
# What a stylesheet puts into a drawing

The names of the colours, the colours and the font of a stylesheet stand in the style element
of every drawing as they were read: nothing of them is escaped or left out. So the style rules are
bare just if the stylesheet is (`Layout.bare_styles_iff`), and a colour with a tag in it puts that
tag into the document.
-/

namespace QuantumDiagram

/-! ## Colours that are kept -/

namespace Palette

variable {p colors : Palette} {token color : Text} {x : Text × Text}

theorem eq_or_mem_of_mem_set (h : x ∈ p.set token color) : x = (token, color) ∨ x ∈ p := by
  fun_induction set p token color with
  | case1 => exact .inl (List.mem_singleton.1 h)
  | case2 c rest =>
    rcases List.mem_cons.1 h with h | h
    · exact .inl h
    · exact .inr (.tail _ h)
  | case3 => exact List.mem_cons.1 h
  | case4 t c rest _ _ ih =>
    rcases List.mem_cons.1 h with rfl | h
    · exact .inr List.mem_cons_self
    · exact (ih h).imp_right (.tail _)

theorem mem_or_mem_of_mem_setAll (h : x ∈ p.setAll colors) : x ∈ p ∨ x ∈ colors := by
  induction colors generalizing p with
  | nil => exact .inl h
  | cons c colors ih =>
    rcases ih h with h | h
    · rcases eq_or_mem_of_mem_set h with rfl | h
      · exact .inr List.mem_cons_self
      · exact .inl h
    · exact .inr (.tail _ h)

theorem mem_of_get? (h : p.get? token = some color) : (token, color) ∈ p := by
  obtain ⟨before, behind, rfl, -⟩ := List.lookup_eq_some_iff.1 h
  exact List.mem_append_right _ List.mem_cons_self

/-- The tokens come in order, each of them once. -/
def Increasing (p : Palette) : Prop := p.Pairwise (·.1 < ·.1)

theorem Increasing.set (h : p.Increasing) (token color : Text) :
    (p.set token color).Increasing := by
  fun_induction Palette.set p token color with
  | case1 => exact List.pairwise_singleton _ _
  | case2 => exact List.pairwise_cons.2 (List.pairwise_cons.1 h)
  | case3 t c rest _ hlt =>
    refine List.pairwise_cons.2 ⟨List.forall_mem_cons.2 ⟨hlt, fun y hy => ?_⟩, h⟩
    exact lt_trans hlt ((List.pairwise_cons.1 h).1 y hy)
  | case4 t c rest hne hle ih =>
    obtain ⟨hfirst, hrest⟩ := List.pairwise_cons.1 h
    refine List.pairwise_cons.2 ⟨fun y hy => ?_, ih hrest⟩
    rcases eq_or_mem_of_mem_set hy with rfl | hy
    · exact lt_of_le_of_ne (not_lt.1 hle) (Ne.symm hne)
    · exact hfirst y hy

theorem Increasing.setAll (h : p.Increasing) (colors : Palette) : (p.setAll colors).Increasing := by
  induction colors generalizing p with
  | nil => exact h
  | cons c colors ih => exact ih (h.set c.1 c.2)

theorem mem_set_self (p : Palette) (token color : Text) : (token, color) ∈ p.set token color := by
  fun_induction Palette.set p token color with
  | case1 => exact List.mem_cons_self
  | case2 => exact List.mem_cons_self
  | case3 => exact List.mem_cons_self
  | case4 t c rest _ _ ih => exact .tail _ ih

theorem mem_set_of_ne (h : x ∈ p) (hne : x.1 ≠ token) : x ∈ p.set token color := by
  fun_induction Palette.set p token color with
  | case1 => cases h
  | case2 c rest => exact .tail _ ((List.mem_cons.1 h).resolve_left fun h => hne (h ▸ rfl))
  | case3 => exact .tail _ h
  | case4 t c rest _ _ ih =>
    rcases List.mem_cons.1 h with rfl | h
    · exact List.mem_cons_self
    · exact .tail _ (ih h)

theorem mem_setAll_of_forall_ne (h : x ∈ p) (hne : ∀ c ∈ colors, x.1 ≠ c.1) :
    x ∈ p.setAll colors := by
  induction colors generalizing p with
  | nil => exact h
  | cons c colors ih =>
    obtain ⟨hc, hcolors⟩ := List.forall_mem_cons.1 hne
    exact ih (mem_set_of_ne h hc) hcolors

/-- A colour is kept if no later one has its token. -/
theorem mem_setAll (p : Palette) (hcolors : colors.Increasing) (h : x ∈ colors) :
    x ∈ p.setAll colors := by
  induction colors generalizing p with
  | nil => cases h
  | cons c colors ih =>
    obtain ⟨hfirst, hrest⟩ := List.pairwise_cons.1 hcolors
    rcases List.mem_cons.1 h with h | h
    · rw [h]
      show c ∈ (p.set c.1 c.2).setAll colors
      exact mem_setAll_of_forall_ne (mem_set_self p c.1 c.2) fun d hd => ne_of_lt (hfirst d hd)
    · exact ih _ hrest h

end Palette

namespace Stylesheet

variable {stylesheet : Stylesheet}

theorem increasing_colors? {node : Option Toml.Node} {colors : Palette}
    (h : colors? node = some colors) : colors.Increasing := by
  unfold colors? at h
  split at h
  · cases h
    exact List.Pairwise.nil
  · cases h
    exact List.pairwise_singleton _ _
  · simp only [Option.bind_eq_bind, Option.bind_eq_some_iff, Option.some.injEq] at h
    obtain ⟨-, -, read, -, rfl⟩ := h
    exact Palette.Increasing.setAll List.Pairwise.nil read

theorem increasing_read {source : Text} (h : read? source = some stylesheet) :
    stylesheet.colors.Increasing := by
  simp only [read?, ofEntries?, Option.bind_eq_bind, Option.bind_eq_some_iff,
    Option.some.injEq] at h
  obtain ⟨_, -, _, -, colors, hcolors, _, -, rfl⟩ := h
  exact increasing_colors? hcolors

theorem subset_resolved (h : stylesheet.colors.Increasing) :
    stylesheet.colors ⊆ stylesheet.resolved :=
  fun _ hc => Palette.mem_setAll _ h hc

variable {V : Text → Prop}

/-- The colour of a token is one of the stylesheet's, or has a fixed name. -/
theorem forall_color (hplain : ∀ {t : Text}, t.Plain → V t)
    (h : ∀ c ∈ stylesheet.colors, V c.1 ∧ V c.2) (token : Text) : V (stylesheet.color token) := by
  have hdefault : ∀ c ∈ Palette.default, c.2.Plain := by decide
  unfold color
  cases hown : stylesheet.color? token with
  | some color => exact (h _ (Palette.mem_of_get? hown)).2
  | none =>
    cases hcolor : Palette.default.get? token with
    | some color => exact hplain (hdefault _ (Palette.mem_of_get? hcolor))
    | none =>
      show V (lastResort token)
      unfold lastResort
      split
      · exact hplain (by decide)
      · exact hplain (by decide)

/-- What holds of the names and colours of a stylesheet, and of plain texts, holds of the colours of
every drawing. -/
theorem forall_resolved (hplain : ∀ {t : Text}, t.Plain → V t)
    (h : ∀ c ∈ stylesheet.colors, V c.1 ∧ V c.2) : ∀ c ∈ stylesheet.resolved, V c.1 ∧ V c.2 := by
  have htokens : ∀ token ∈ tokens, token.Plain := by decide
  intro c hc
  rcases Palette.mem_or_mem_of_mem_setAll hc with hc | hc
  · rcases Palette.mem_or_mem_of_mem_setAll hc with hc | hc
    · cases hc
    · obtain ⟨token, htoken, rfl⟩ := List.mem_map.1 hc
      exact ⟨hplain (htokens token htoken), forall_color hplain h token⟩
  · exact h c hc

end Stylesheet

/-! ## Parts of texts -/

namespace Text

variable {t : Text} {ts : List Text}

theorem infix_join (h : t ∈ ts) : t <:+: join ts := List.infix_of_mem_flatten h

theorem infix_flatMap {α : Type} {f : α → Text} {l : List α} {a : α} (h : a ∈ l) :
    f a <:+: l.flatMap f := by
  rw [List.flatMap_def]
  exact infix_join (List.mem_map_of_mem h)

theorem infix_joinWith (sep : Text) (h : t ∈ ts) : t <:+: joinWith sep ts := by
  induction ts with
  | nil => cases h
  | cons u ts ih =>
    cases ts with
    | nil =>
      obtain rfl := List.mem_singleton.1 h
      simp [joinWith]
    | cons v ts =>
      rw [joinWith, List.intercalate_cons_cons]
      rcases List.mem_cons.1 h with rfl | h
      · rw [List.append_assoc]
        exact List.infix_append' [] _ _
      · exact (ih h).trans (List.infix_append_right ..)

theorem Without.of_isInfix {part : Text} {forbidden : List Char} (h : t.Without forbidden)
    (hpart : part <:+: t) : part.Without forbidden :=
  h.subset hpart.subset

end Text

/-- A text that needs no entities as character data. -/
abbrev Text.Bare (t : Text) : Prop := t.Without ['<', '&']

namespace Svg

/-! ## Style rules -/

namespace Style

variable {style : Style} {classPrefix : Text}

section Closed

variable {V P : Text → Prop}

/-- A property `P` of texts that are put together from fixed ones and from values with a property
`V`, each value with a fixed text behind it. -/
structure Closed (V P : Text → Prop) : Prop where
  append {s t : Text} : P s → P t → P (s ++ t)
  fixed {t : Text} : t.Without Markup.unsealing → P t
  value {s t : Text} : V s → t.Without Markup.unsealing → t ≠ [] → P (s ++ t)
  plain {t : Text} : t.Plain → V t

theorem Closed.join (hP : Closed V P) {ts : List Text} (h : ∀ t ∈ ts, P t) : P (Text.join ts) := by
  induction ts with
  | nil => exact hP.fixed Text.without_nil
  | cons t ts ih =>
    obtain ⟨ht, hts⟩ := List.forall_mem_cons.1 h
    exact hP.append ht (ih hts)

theorem Closed.joinWith (hP : Closed V P) {sep : Text} (hsep : P sep) {ts : List Text}
    (h : ∀ t ∈ ts, P t) : P (Text.joinWith sep ts) := by
  induction ts with
  | nil => exact hP.fixed Text.without_nil
  | cons t ts ih =>
    obtain ⟨ht, hts⟩ := List.forall_mem_cons.1 h
    cases ts with
    | nil => exact hP.append ht (hP.fixed Text.without_nil)
    | cons u ts => exact hP.append ht (hP.append hsep (ih hts))

theorem Closed.rule (hP : Closed V P) (hlead : V classPrefix) {classes : List Text}
    {declarations : List Declaration}
    (hclasses : ∀ c ∈ classes, c.Without Markup.unsealing ∧ c ≠ [])
    (hdeclarations : ∀ d ∈ declarations, V d.1 ∧ V d.2) :
    P (Style.rule classPrefix classes declarations) := by
  have hselectors : P (Text.joinWith ", " (classes.map fun c => '.' :: (classPrefix ++ c))) := by
    refine hP.joinWith (hP.fixed (by decide)) fun t ht => ?_
    obtain ⟨c, hc, rfl⟩ := List.mem_map.1 ht
    obtain ⟨hfixed, hne⟩ := hclasses c hc
    exact hP.append (s := ['.']) (hP.fixed (by decide)) (hP.value hlead hfixed hne)
  have hbody : P (declarations.flatMap fun d => Text.join [d.1, ": ", d.2, "; "]) := by
    rw [List.flatMap_def]
    refine hP.join (List.forall_mem_map.2 fun d hd => ?_)
    obtain ⟨hproperty, hvalue⟩ := hdeclarations d hd
    have hsplit : Text.join [d.1, ": ", d.2, "; "] =
        (d.1 ++ ": ".toList) ++ (d.2 ++ "; ".toList) := by simp [Text.join]
    rw [hsplit]
    exact hP.append (hP.value hproperty (by decide) (by decide))
      (hP.value hvalue (by decide) (by decide))
  refine hP.join ?_
  simp only [List.forall_mem_cons]
  exact ⟨hP.fixed (by decide), hselectors, hP.fixed (by decide), hbody, hP.fixed (by decide),
    by simp⟩

theorem Closed.properties (hP : Closed V P) {colors : Palette}
    (h : ∀ c ∈ colors, V c.1 ∧ V c.2) : P (Style.properties colors) := by
  have hbody : P (colors.flatMap fun c => Text.join ["    --", c.1, ": ", c.2, ";\n"]) := by
    rw [List.flatMap_def]
    refine hP.join (List.forall_mem_map.2 fun c hc => ?_)
    obtain ⟨htoken, hcolor⟩ := h c hc
    have hsplit : Text.join ["    --", c.1, ": ", c.2, ";\n"] =
        "    --".toList ++ ((c.1 ++ ": ".toList) ++ (c.2 ++ ";\n".toList)) := by simp [Text.join]
    rw [hsplit]
    exact hP.append (hP.fixed (by decide)) (hP.append (hP.value htoken (by decide) (by decide))
      (hP.value hcolor (by decide) (by decide)))
  refine hP.join ?_
  simp only [List.forall_mem_cons]
  exact ⟨hP.fixed (by decide), hbody, hP.fixed (by decide), by simp⟩

/-- The rules have the property if all values that are put into them have theirs. -/
theorem Closed.text (hP : Closed V P) (hlead : V classPrefix)
    (hcolors : ∀ c ∈ style.stylesheet.colors, V c.1 ∧ V c.2)
    (hfont : V style.stylesheet.fontFamily) : P (style.text classPrefix) := by
  have hplain (t : Text) (h : t.Plain) : V t := hP.plain h
  have hborder : V (Decimal.integer style.borderWidth) := hP.plain (Decimal.plain_integer _)
  have hsize : V (Decimal.floating style.stylesheet.fontSize ++ "px".toList) :=
    hP.plain (Text.without_append.2 ⟨Decimal.plain_floating _, by decide⟩)
  have hrule {classes : List Text} {declarations : List Declaration}
      (hclasses : ∀ c ∈ classes, c.Without Markup.unsealing ∧ c ≠ [])
      (hdeclarations : ∀ d ∈ declarations, d.1.Plain ∧ d.2.Plain) :
      P (Style.rule classPrefix classes declarations) :=
    hP.rule hlead hclasses fun d hd =>
      ⟨hP.plain (hdeclarations d hd).1, hP.plain (hdeclarations d hd).2⟩
  refine hP.joinWith (hP.fixed (by decide)) ?_
  unfold rules
  refine List.forall_mem_cons.2 ⟨hP.properties (Stylesheet.forall_resolved hP.plain hcolors), ?_⟩
  simp only [List.forall_mem_cons]
  refine ⟨?background, ?wire, ?box, ?text, ?dot, ?target, ?cross, ?meter, ?bracket, ?guide, ?none⟩
  case box =>
    refine hP.rule hlead (by decide) ?_
    simp only [List.forall_mem_cons]
    exact ⟨⟨hplain _ (by decide), hplain _ (by decide)⟩,
      ⟨hplain _ (by decide), hplain _ (by decide)⟩, ⟨hplain _ (by decide), hborder⟩, by simp⟩
  case text =>
    refine hP.rule hlead (by decide) ?_
    simp only [List.forall_mem_cons]
    exact ⟨⟨hplain _ (by decide), hplain _ (by decide)⟩, ⟨hplain _ (by decide), hfont⟩,
      ⟨hplain _ (by decide), hsize⟩, by simp⟩
  case none => exact List.forall_mem_nil _
  all_goals exact hrule (by decide) (by decide)

theorem closed_bare : Closed Text.Bare Text.Bare where
  append hs ht := Text.without_append.2 ⟨hs, ht⟩
  fixed h := h.mono (by decide)
  value hs ht _ := Text.without_append.2 ⟨hs, ht.mono (by decide)⟩
  plain h := h.mono (by decide)

theorem closed_sealed : Closed Markup.CharacterData Markup.Sealed where
  append := .append
  fixed := .of_without
  value := .sealed
  plain := .of_plain

end Closed

theorem infix_text {r : Text} (h : r ∈ style.rules classPrefix) : r <:+: style.text classPrefix :=
  Text.infix_joinWith _ h

theorem infix_rule {classes : List Text} {declarations : List Declaration} {d : Declaration}
    (h : d ∈ declarations) :
    Text.join [d.1, ": ", d.2, "; "] <:+: rule classPrefix classes declarations :=
  (Text.infix_flatMap (f := fun d : Declaration => Text.join [d.1, ": ", d.2, "; "]) h).trans
    (Text.infix_join (by simp))

theorem infix_properties {colors : Palette} {c : Text × Text} (h : c ∈ colors) :
    Text.join ["    --", c.1, ": ", c.2, ";\n"] <:+: properties colors :=
  (Text.infix_flatMap (f := fun c : Text × Text => Text.join ["    --", c.1, ": ", c.2, ";\n"])
    h).trans (Text.infix_join (by simp))

/-- Each colour is declared, with its token and value as they are. -/
theorem infix_color {c : Text × Text} (h : c ∈ style.stylesheet.resolved) :
    Text.join ["--", c.1, ": ", c.2, ";"] <:+: style.text classPrefix := by
  have hdeclaration : Text.join ["--", c.1, ": ", c.2, ";"] <:+:
      Text.join ["    --", c.1, ": ", c.2, ";\n"] := ⟨"    ".toList, ['\n'], by simp [Text.join]⟩
  exact (hdeclaration.trans (infix_properties h)).trans (infix_text List.mem_cons_self)

/-- The font is declared as it is. -/
theorem infix_font (style : Style) (classPrefix : Text) :
    Text.join ["font-family: ", style.stylesheet.fontFamily, ";"] <:+: style.text classPrefix := by
  have hdeclaration : Text.join ["font-family: ", style.stylesheet.fontFamily, ";"] <:+:
      Text.join ["font-family", ": ", style.stylesheet.fontFamily, "; "] :=
    ⟨[], [' '], by simp [Text.join]⟩
  have hrule : rule classPrefix ["text"]
      [("fill", "var(--text)"), ("font-family", style.stylesheet.fontFamily),
        ("font-size", Decimal.floating style.stylesheet.fontSize ++ "px".toList)] ∈
      style.rules classPrefix := by simp [rules]
  exact (hdeclaration.trans (infix_rule (d := ("font-family", style.stylesheet.fontFamily))
    (by simp))).trans (infix_text hrule)

theorem infix_classPrefix (style : Style) (classPrefix : Text) :
    classPrefix <:+: style.text classPrefix := by
  have hselector : classPrefix <:+: Text.joinWith ", "
      (["background".toList].map fun c => '.' :: (classPrefix ++ c)) :=
    ⟨['.'], "background".toList, by simp [Text.joinWith]⟩
  have hrule : rule classPrefix ["background"] [("fill", "var(--background)"), ("stroke", "none")] ∈
      style.rules classPrefix := by simp [rules]
  exact (hselector.trans (Text.infix_join (by simp))).trans (infix_text hrule)

/-- The rules are bare just if all that is put into them is. -/
theorem bare_text_iff (h : style.stylesheet.colors.Increasing) :
    (style.text classPrefix).Bare ↔ classPrefix.Bare ∧
      (∀ c ∈ style.stylesheet.colors, c.1.Bare ∧ c.2.Bare) ∧ style.stylesheet.fontFamily.Bare := by
  constructor
  · intro hbare
    have hpart {part : Text} (hpart : part <:+: style.text classPrefix) : part.Bare :=
      hbare.of_isInfix hpart
    refine ⟨hpart (infix_classPrefix style classPrefix), fun c hc => ?_, ?_⟩
    · have hcolor := hpart (infix_color (Stylesheet.subset_resolved h hc))
      exact ⟨Text.without_join.1 hcolor _ (by simp), Text.without_join.1 hcolor _ (by simp)⟩
    · exact Text.without_join.1 (hpart (infix_font style classPrefix)) _ (by simp)
  · rintro ⟨hlead, hcolors, hfont⟩
    exact closed_bare.text hlead hcolors hfont

end Style

/-- The text of a block stands between its tags, with blanks around it only. -/
theorem setRows_block (name t : Text) (pretty : Bool) : ∃ before behind ending : Text,
    (∀ c ∈ before ++ behind, c = ' ' ∨ c = '\n') ∧
      (blockRows name [t]).flatMap (Document.setRow pretty) =
        "  ".toList ++
          (Text.join [openTag name [], before, t, behind, closeTag name] ++ ending) := by
  obtain ⟨ending, hending, hset⟩ := setRow_zero pretty
  have hblank (n : Nat) : ∀ c ∈ Text.repeated n ' ', c = ' ' ∨ c = '\n' :=
    fun c hc => .inl (List.eq_of_mem_replicate hc)
  refine ⟨ending ++ Text.repeated 4 ' ', ending ++ Text.repeated 2 ' ', ending, ?_, ?_⟩
  · simp only [List.forall_mem_append]
    exact ⟨⟨hending, hblank 4⟩, hending, hblank 2⟩
  · simp [blockRows, hset, Text.join, Text.repeated, List.replicate]

theorem infix_styles (d : Document) (s : Settings) (area : Box) :
    (blockRows "style" (d.styles.map (·.text (s.className [])))).flatMap (Document.setRow s.pretty)
      <:+: d.text s area := by
  have hrows : d.rows s area =
      ((if s.standalone then [⟨0, "<?xml version=\"1.0\" encoding=\"UTF-8\"?>"⟩] else []) ++
        [⟨0, Document.rootTag s area⟩]) ++
      blockRows "style" (d.styles.map (·.text (s.className []))) ++
      (blockRows "defs" (List.replicate d.arrowHeads (arrowHead s)) ++
        d.lines.map (lineRow s) ++ markRows s 1 d.marks) := by
    simp only [Document.rows, List.append_assoc, List.cons_append, List.nil_append]
  rw [Document.text, hrows, List.flatMap_append, List.flatMap_append]
  exact (List.infix_append _ _ _).trans (List.prefix_append _ _).isInfix

end Svg

/-- **What a stylesheet says goes into the document as it is**: its colours and its font are
declared in the style element without being escaped, and so the style rules are bare just if they
are. -/
theorem Layout.bare_styles_iff (l : Layout) (s : Svg.Settings) {source : Text}
    {stylesheet : Stylesheet} (h : Stylesheet.read? source = some stylesheet) :
    let rules := Svg.Style.text ⟨stylesheet, l.borderWidth⟩ (s.className [])
    (∃ before behind : Text, (∀ c ∈ before ++ behind, c = ' ' ∨ c = '\n') ∧
      Text.join ["<style>", before, rules, behind, "</style>"] <:+: l.svg s stylesheet) ∧
    (∀ c ∈ stylesheet.colors, Text.join ["--", c.1, ": ", c.2, ";"] <:+: rules) ∧
    Text.join ["font-family: ", stylesheet.fontFamily, ";"] <:+: rules ∧
    (rules.Bare ↔ (s.className []).Bare ∧ (∀ c ∈ stylesheet.colors, c.1.Bare ∧ c.2.Bare) ∧
      stylesheet.fontFamily.Bare) := by
  intro rules
  have hcolors := Stylesheet.increasing_read h
  refine ⟨?_, fun c hc => Svg.Style.infix_color (Stylesheet.subset_resolved hcolors hc),
    Svg.Style.infix_font ⟨stylesheet, l.borderWidth⟩ _, Svg.Style.bare_text_iff hcolors⟩
  obtain ⟨before, behind, ending, hblank, hblock⟩ := Svg.setRows_block "style" rules s.pretty
  have helement : Text.join ["<style>", before, rules, behind, "</style>"] <:+:
      (Svg.blockRows "style" [rules]).flatMap (Svg.Document.setRow s.pretty) := by
    rw [hblock]
    exact (List.prefix_append _ ending).isInfix.trans (List.suffix_append _ _).isInfix
  exact ⟨before, behind, hblank,
    helement.trans (Svg.infix_styles (l.draw s stylesheet) s l.bounds)⟩

/-- The value of the colour opens an element of its own in every drawing. -/
theorem Layout.bare_styles_closed :
    ∃ stylesheet, Stylesheet.read? "[colors]\nwire = \"#000</style><script/>\"".toList =
        some stylesheet ∧
      ∃ m, Circuit.ofProgram "qubits 1\nh q0".toList = .ok m ∧
        let l := m.layout ⟨200, 100⟩ (FontMetrics.toTextMetrics ⟨10, 20⟩) {}
        let rules := Svg.Style.text ⟨stylesheet, l.borderWidth⟩ "qc-".toList
        "--wire: #000</style><script/>;".toList <:+: rules ∧ ¬ rules.Bare ∧
          ∃ before behind : Text, (∀ c ∈ before ++ behind, c = ' ' ∨ c = '\n') ∧
            Text.join ["<style>", before, rules, behind, "</style>"] <:+: l.svg {} stylesheet := by
  have hread : (Stylesheet.read? "[colors]\nwire = \"#000</style><script/>\"".toList).map
      (·.colors) = some [("wire".toList, "#000</style><script/>".toList)] := by decide +kernel
  have hparse : (Circuit.ofProgram "qubits 1\nh q0".toList).toOption.isSome = true := by
    decide +kernel
  obtain ⟨stylesheet, hstylesheet, hcolors⟩ := Option.map_eq_some_iff.1 hread
  obtain ⟨m, hm⟩ := Option.isSome_iff_exists.1 hparse
  refine ⟨stylesheet, hstylesheet, m, toOption_eq_some.1 hm, ?_⟩
  intro l rules
  obtain ⟨helement, hcolor, -, hbare⟩ := Layout.bare_styles_iff l {} hstylesheet
  have hwire := hcolor ("wire".toList, "#000</style><script/>".toList) (by simp [hcolors])
  refine ⟨hwire, fun h => ?_, helement⟩
  have hvalue := ((hbare.1 h).2.1 _ (by rw [hcolors]; exact List.mem_singleton_self _)).2
  exact absurd hvalue (by decide)

end QuantumDiagram
