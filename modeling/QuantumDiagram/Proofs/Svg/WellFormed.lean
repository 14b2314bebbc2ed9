import QuantumDiagram.Proofs.Circuit.Labels
import QuantumDiagram.Proofs.Layout.Cells
import QuantumDiagram.Proofs.Svg.StyleRules

/-!
# Documents are well-formed

The text of the drawing of every program is one `svg` element, behind an XML declaration if it
stands alone (`Circuit.wellFormed_svg`). Texts that come from a program are escaped, and have no
character that XML excludes; all others are numbers, the names of gates and channels, and what
begins the class names, and need no escaping. What a stylesheet says is written as it is: `]]>` in
it, or a character that XML excludes, is in the document as well, which is then not well-formed.
-/

namespace QuantumDiagram

/-- What the glyph shows as text has no character that XML excludes. -/
def Glyph.Legal : Glyph → Prop
  | .box label _ => label.Legal
  | _ => True

namespace Svg

open Markup

/-! ## What is drawn -/

section Drawing

variable {s : Settings}

theorem plain_gate (g : Gate) : g.name.Plain ∧ g.controlledName.Plain := by
  cases g <;> decide

theorem plain_elementName (e : Element) : (elementName e).Plain := by
  unfold elementName
  split
  · exact (plain_gate e.gate).2
  · exact (plain_gate e.gate).1

theorem plain_elementId (e : Element) : (elementId e).Plain := by
  have hchannel : e.channel.text.Plain := by
    cases e.channel with
    | qubit i => exact Text.without_cons.2 ⟨by decide, Decimal.plain_natural i⟩
    | bit i => exact Text.without_cons.2 ⟨by decide, Decimal.plain_natural i⟩
  exact Text.without_append.2
    ⟨hchannel, Text.without_cons.2 ⟨by decide, Decimal.plain_natural e.column⟩⟩

theorem plain_arc (m : Meter) : m.arc.Plain := by
  simp +decide [Meter.arc, Text.join, Decimal.plain_integer]

theorem isPlain_glyphMarks {g : Glyph} {b : Box} (h : g.Legal) :
    ∀ m ∈ glyphMarks g b, m.IsPlain := by
  cases g with
  | box label square =>
    have hbox : Text.Plain "box" := by decide
    exact List.forall_mem_cons.2 ⟨hbox, List.forall_mem_cons.2 ⟨h, List.forall_mem_nil _⟩⟩
  | _ => simp +decide [glyphMarks, Meter.marks, Mark.IsPlain, plain_arc]

theorem nested_elementMarks (hs : (s.className []).Plain) {e : Element} (h : e.glyph.Legal) :
    Nested s (elementMarks s e) := by
  have hmarks : Nested s (glyphMarks e.glyph e.bounds) := .of_forall (isPlain_glyphMarks h)
  have hid : AttributeValue (s.className (elementId e)) :=
    .of_plain (plain_className hs (plain_elementId e))
  have hclass : AttributeValue
      (Text.joinWith " " [s.className "gate", s.className (elementName e)]) := by
    refine .of_plain (Text.without_joinWith (by decide) ?_)
    exact List.forall_mem_cons.2 ⟨plain_className hs (by decide), List.forall_mem_cons.2
      ⟨plain_className hs (plain_elementName e), List.forall_mem_nil _⟩⟩
  have hgate : AttributeValue (escape (elementName e)) :=
    .escape (plain_elementName e).legal
  unfold elementMarks
  cases e.angle with
  | none =>
    refine .group (.of_names ["id", "class", "data-gate"] (by decide) (by decide) ?_ ?_) rfl
      hmarks .nil
    · rfl
    · exact List.forall_mem_cons.2 ⟨hid, List.forall_mem_cons.2 ⟨hclass,
        List.forall_mem_cons.2 ⟨hgate, List.forall_mem_nil _⟩⟩⟩
  | some a =>
    have hangle : AttributeValue (escape (Decimal.floating a)) :=
      .escape (Decimal.plain_floating a).legal
    refine .group (.of_names ["id", "class", "data-gate", "data-angle"] (by decide) (by decide)
      ?_ ?_) rfl hmarks .nil
    · rfl
    · exact List.forall_mem_cons.2 ⟨hid, List.forall_mem_cons.2 ⟨hclass,
        List.forall_mem_cons.2 ⟨hgate, List.forall_mem_cons.2 ⟨hangle, List.forall_mem_nil _⟩⟩⟩⟩

theorem nested_bracketMarks (hs : (s.className []).Plain) {b : Bracket} (hname : b.name.Legal)
    (hcaption : b.caption.Legal) : Nested s (bracketMarks s b) := by
  have hmarks : Nested s (.arrow b.left b.right :: .label b.caption b.anchor ::
      b.guides.map fun guide => .line guide.1 guide.2 "guide") := by
    have hguide : Text.Plain "guide" := by decide
    refine .of_forall (List.forall_mem_cons.2 ⟨trivial, List.forall_mem_cons.2 ⟨hcaption, ?_⟩⟩)
    exact List.forall_mem_map.2 fun guide _ => hguide
  have hclass : AttributeValue (Text.joinWith " " [s.className "subroutine"]) := by
    refine .of_plain (Text.without_joinWith (by decide) ?_)
    exact List.forall_mem_cons.2 ⟨plain_className hs (by decide), List.forall_mem_nil _⟩
  refine .group (.of_names ["class", "data-name"] (by decide) (by decide) ?_ ?_) rfl hmarks .nil
  · rfl
  · exact List.forall_mem_cons.2 ⟨hclass, List.forall_mem_cons.2 ⟨.escape hname,
      List.forall_mem_nil _⟩⟩

end Drawing

/-! ## Documents -/

section Documents

variable {s : Settings}

theorem block_arrowHead (hs : (s.className []).Plain) : Block (arrowHead s) := by
  have hattributes : Writable [("id", s.className "arrow"), ("viewBox", "0 0 10 10"), ("refX", "8"),
      ("refY", "5"), ("markerWidth", "6"), ("markerHeight", "6"),
      ("orient", "auto-start-reverse")] := by
    refine .of_plain ["id", "viewBox", "refX", "refY", "markerWidth", "markerHeight", "orient"]
      (by decide) (by decide) rfl (List.forall_mem_cons.2 ⟨plain_className hs (by decide), ?_⟩)
    decide
  have hpath : Block
      (emptyTag "path" [("d", "M0,0 L10,5 L0,10 Z"), ("fill", "context-stroke")]) :=
    block_emptyTag (by decide) (.of_plain ["d", "fill"] (by decide) (by decide) rfl (by decide))
  have hinner : Block ("\n      ".toList ++ _ ++ "\n    ".toList) :=
    ((block_of_blank (by simp)).append hpath).append (block_of_blank (by simp))
  have helement : IsElement "marker" _ := isElement_tags (by decide) hattributes hinner.content
  simpa [arrowHead, Text.join] using Block.of_element helement

theorem block_lineRow (hs : (s.className []).Plain) (l : Segment) : Block (lineRow s l).text := by
  have hclass : (lineClass l.kind).Plain := by cases l.kind <;> decide
  exact block_markText (m := .line l.start l.stop (lineClass l.kind)) hs hclass

theorem writable_root (s : Settings) (area : Box) : ∃ attributes,
    Document.rootTag s area = openTag "svg" attributes ∧ Writable attributes := by
  refine ⟨_, rfl, .of_plain ["xmlns", "viewBox", "width", "height"] (by decide) (by decide) rfl ?_⟩
  have hviewBox (a b c d : Int) : (Text.joinWith " " [Decimal.integer a, Decimal.integer b,
      Decimal.integer c, Decimal.integer d]).Plain :=
    Text.without_joinWith (by decide) (by simp [Decimal.plain_integer])
  have hxmlns : Text.Plain "http://www.w3.org/2000/svg" := by decide
  refine List.forall_mem_cons.2 ⟨hxmlns, List.forall_mem_cons.2 ⟨hviewBox _ _ _ _, ?_⟩⟩
  simp [Decimal.plain_integer]

/-- What comes behind the tag that opens a document, up to the tag that closes it. -/
def Document.body (d : Document) (s : Settings) : List Row :=
  blockRows "style" (d.styles.map (·.text (s.className []))) ++
    blockRows "defs" (List.replicate d.arrowHeads (arrowHead s)) ++
    d.lines.map (lineRow s) ++ markRows s 1 d.marks

theorem block_body {d : Document} (hs : (s.className []).Plain)
    (hstyles : ∀ style ∈ d.styles, Sealed (style.text (s.className [])))
    (hmarks : Nested s d.marks) : Block ((d.body s).flatMap (Document.setRow s.pretty)) := by
  have hstyle : ∀ t ∈ d.styles.map (·.text (s.className [])), Block t :=
    List.forall_mem_map.2 fun style hstyle => .of_sealed (hstyles style hstyle)
  have hdefs : ∀ t ∈ List.replicate d.arrowHeads (arrowHead s), Block t := by
    intro t ht
    rw [List.eq_of_mem_replicate ht]
    exact block_arrowHead hs
  have hlines : Block ((d.lines.map (lineRow s)).flatMap (Document.setRow s.pretty)) := by
    refine .flatMap fun r hr => ?_
    obtain ⟨l, -, rfl⟩ := List.mem_map.1 hr
    exact block_setRow s.pretty (block_lineRow hs l)
  obtain ⟨t, ht, hrows⟩ := hmarks.block hs s.pretty 1 []
  rw [List.append_nil, markRows, List.flatMap_nil, List.append_nil] at hrows
  rw [Document.body, List.flatMap_append, List.flatMap_append, List.flatMap_append, hrows]
  exact (((block_blockRows (by decide) hstyle s.pretty).append
    (block_blockRows (by decide) hdefs s.pretty)).append hlines).append ht

/-- The declaration, if there is one, and the tag that opens the document come before its body. -/
theorem text_eq (d : Document) (s : Settings) (area : Box) : ∃ behind : Text,
    (∀ c ∈ behind, c = ' ' ∨ c = '\n') ∧
      d.text s area =
        (if s.standalone then "<?xml version=\"1.0\" encoding=\"UTF-8\"?>".toList ++ behind
          else []) ++
        (Document.rootTag s area ++ (behind ++ (d.body s).flatMap (Document.setRow s.pretty)) ++
          closeTag "svg") := by
  obtain ⟨behind, hbehind, hset⟩ := setRow_zero s.pretty
  refine ⟨behind, hbehind, ?_⟩
  have hrows : d.rows s area = (if s.standalone then
      [⟨0, "<?xml version=\"1.0\" encoding=\"UTF-8\"?>"⟩] else []) ++
      ⟨0, Document.rootTag s area⟩ :: d.body s := rfl
  rw [Document.text, hrows, List.flatMap_append, List.flatMap_cons, hset]
  cases s.standalone
  · simp only [Bool.false_eq_true, if_false, List.flatMap_nil, List.nil_append, List.append_assoc]
  · simp only [if_true, List.flatMap_singleton, hset, List.append_assoc]

/-- The text of a document whose styles are character data and whose marks are nested. -/
theorem wellFormed_text {d : Document} (area : Box) (hs : (s.className []).Plain)
    (hstyles : ∀ style ∈ d.styles, Sealed (style.text (s.className [])))
    (hmarks : Nested s d.marks) :
    (s.standalone = true → IsDocument "svg" (d.text s area)) ∧
      (s.standalone = false → IsElement "svg" (d.text s area)) := by
  obtain ⟨attributes, hopen, hattributes⟩ := writable_root s area
  obtain ⟨behind, hbehind, htext⟩ := text_eq d s area
  have hroot : IsElement "svg" (Document.rootTag s area ++
      (behind ++ (d.body s).flatMap (Document.setRow s.pretty)) ++ closeTag "svg") := by
    rw [hopen]
    exact isElement_tags (by decide) hattributes
      ((block_of_blank hbehind).append (block_body hs hstyles hmarks)).content
  constructor
  · intro hstandalone
    refine ⟨behind, _, hbehind, hroot, ?_⟩
    rw [htext, if_pos hstandalone]
    simp [Text.join]
  · intro hstandalone
    rwa [htext, if_neg (by simp [hstandalone])]

end Documents

/-! ## What a document shows of its styles -/

section Styles

variable {s : Settings} {d : Document} {style : Style}

theorem between_blank {t : Text} (h : ∀ c ∈ t, c = ' ' ∨ c = '\n') (u : Text) :
    between .text (t ++ u) = t ++ between .text u :=
  between_text_append ((Sealed.of_blank h).data.characters.without.mono (by simp)) u

theorem between_openTag {name : Text} {attributes : List Attribute} (hname : isName name = true)
    (h : Writable attributes) (u : Text) :
    between .text (openTag name attributes ++ u) = '<' :: between .text u := by
  have hsplit : openTag name attributes ++ u =
      '<' :: (name ++ (attributesText attributes ++ '>' :: u)) := by simp [openTag, Text.join]
  rw [hsplit, between_tag hname h.written]

/-- The rules stand between the tags of the document as they are. -/
theorem infix_between (hstyles : d.styles = [style])
    (hrules : (style.text (s.className [])).Without ['<']) (area : Box)
    (hstandalone : s.standalone = true) :
    style.text (s.className []) <:+: between .text (d.text s area) := by
  obtain ⟨attributes, hopen, hattributes⟩ := writable_root s area
  obtain ⟨behind, hbehind, htext⟩ := text_eq d s area
  obtain ⟨before, after, ending, hblank, hblock⟩ :=
    setRows_block "style" (style.text (s.className [])) s.pretty
  obtain ⟨hbefore, -⟩ := List.forall_mem_append.1 hblank
  obtain ⟨rest, hrest⟩ : ∃ rest, (d.body s).flatMap (Document.setRow s.pretty) =
      "  ".toList ++ (openTag "style" [] ++ (before ++ (style.text (s.className []) ++ rest))) := by
    rw [Document.body, hstyles, List.map_singleton, List.append_assoc, List.append_assoc,
      List.flatMap_append, hblock]
    exact ⟨_, by simp [Text.join]; rfl⟩
  have hnone : Writable [] := ⟨by simp, by simp, by simp⟩
  rw [htext, if_pos hstandalone, hopen, hrest]
  simp only [List.append_assoc]
  show _ <:+: '<' :: between .text (behind ++ _)
  rw [between_blank hbehind, between_openTag (by decide) hattributes, between_blank hbehind,
    between_blank (t := "  ".toList) (by simp), between_openTag (by decide) hnone,
    between_blank hbefore, between_text_append hrules]
  exact ⟨'<' :: (behind ++ '<' :: (behind ++ ("  ".toList ++ '<' :: before))), _, by simp; rfl⟩

end Styles

end Svg

/-! ## Drawings -/

/-- The texts that are drawn for a layout have no character that XML excludes. -/
structure Layout.Legal (l : Layout) : Prop where
  labels : ∀ label ∈ l.labels, label.text.Legal
  elements : ∀ e ∈ l.elements, e.glyph.Legal
  brackets : ∀ b ∈ l.brackets, b.name.Legal ∧ b.caption.Legal

theorem Layout.nested_marks {l : Layout} (hl : l.Legal) {s : Svg.Settings}
    (hs : (s.className []).Plain) (stylesheet : Stylesheet) :
    Svg.Nested s (l.draw s stylesheet).marks := by
  have hbackground :
      Svg.Nested s (if s.background then [.rect l.bounds "background"] else []) := by
    refine .of_forall ?_
    split <;> simp +decide [Svg.Mark.IsPlain]
  have hlabels :
      Svg.Nested s (l.labels.map fun label => .label label.text label.bounds.center) :=
    .of_forall (List.forall_mem_map.2 hl.labels)
  have helements : Svg.Nested s (l.elements.flatMap (Svg.elementMarks s)) :=
    .flatMap fun e he => Svg.nested_elementMarks hs (hl.elements e he)
  have hbrackets : Svg.Nested s (l.brackets.flatMap (Svg.bracketMarks s)) :=
    .flatMap fun b hb => Svg.nested_bracketMarks hs (hl.brackets b hb).1 (hl.brackets b hb).2
  exact ((hbackground.append hlabels).append helements).append hbrackets

/-- The text can stand between tags as it is. -/
structure Text.Verbatim (t : Text) : Prop where
  bare : t.Bare
  legal : t.Legal
  noSectionEnd : t.NoSectionEnd

theorem Text.Verbatim.characterData {t : Text} (h : t.Verbatim) : Markup.CharacterData t where
  characters := by
    refine .of_without fun c hc => ?_
    have hbare := h.bare c hc
    have hlegal := h.legal c hc
    simp only [List.mem_cons, List.not_mem_nil, or_false, not_or] at hbare ⊢
    exact ⟨hbare.1, hbare.2, hlegal⟩
  noSectionEnd := h.noSectionEnd

theorem Svg.Settings.plain_className_nil {s : Settings} (h : ∀ t ∈ s.classPrefix, t.Plain) :
    (s.className []).Plain := by
  rw [className, List.append_nil]
  cases hprefix : s.classPrefix with
  | none => exact Text.without_nil
  | some t => exact h t hprefix

theorem Layout.wellFormed_text {l : Layout} (hl : l.Legal) {s : Svg.Settings}
    {stylesheet : Stylesheet} (hlead : ∀ t ∈ s.classPrefix, t.Plain)
    (hcolors : ∀ c ∈ stylesheet.colors, c.1.Verbatim ∧ c.2.Verbatim)
    (hfont : stylesheet.fontFamily.Verbatim) :
    (s.standalone = true → Markup.IsDocument "svg" (l.svg s stylesheet)) ∧
      (s.standalone = false → Markup.IsElement "svg" (l.svg s stylesheet)) := by
  have hs := Svg.Settings.plain_className_nil hlead
  refine Svg.wellFormed_text l.bounds hs (fun style hstyle => ?_) (nested_marks hl hs stylesheet)
  rw [List.mem_singleton.1 hstyle]
  exact Svg.Style.closed_sealed.text (.of_plain hs)
    (fun c hc => ⟨(hcolors c hc).1.characterData, (hcolors c hc).2.characterData⟩)
    hfont.characterData

/-- A document that is well-formed shows that nothing in its style rules had to be escaped. -/
theorem Layout.verbatim_of_isDocument (l : Layout) {s : Svg.Settings} {stylesheet : Stylesheet}
    (hstandalone : s.standalone = true) (hincreasing : stylesheet.colors.Increasing)
    (hbare : (Svg.Style.text ⟨stylesheet, l.borderWidth⟩ (s.className [])).Bare)
    (h : Markup.IsDocument "svg" (l.svg s stylesheet)) :
    (s.className []).Legal ∧ (∀ c ∈ stylesheet.colors, c.1.Verbatim ∧ c.2.Verbatim) ∧
      stylesheet.fontFamily.Verbatim := by
  let style : Svg.Style := ⟨stylesheet, l.borderWidth⟩
  have hlegal : (style.text (s.className [])).Legal := by
    refine h.legal.of_isInfix (List.IsInfix.trans ?_ (Svg.infix_styles _ s l.bounds))
    obtain ⟨before, behind, ending, -, hblock⟩ :=
      Svg.setRows_block "style" (style.text (s.className [])) s.pretty
    refine List.IsInfix.trans ?_ (hblock ▸ (List.prefix_append _ ending).isInfix.trans
      (List.suffix_append "  ".toList _).isInfix)
    exact Text.infix_join (by simp)
  have hend : (style.text (s.className [])).NoSectionEnd :=
    h.noSectionEnd_between.of_isInfix
      (Svg.infix_between rfl (hbare.mono (by simp)) l.bounds hstandalone)
  have hpart {t : Text} (ht : t <:+: style.text (s.className [])) : t.Verbatim :=
    ⟨hbare.of_isInfix ht, hlegal.of_isInfix ht, hend.of_isInfix ht⟩
  refine ⟨(hpart (Svg.Style.infix_classPrefix style _)).legal, fun c hc => ?_, ?_⟩
  · have hcolor : Text.join ["--", c.1, ": ", c.2, ";"] <:+: style.text (s.className []) :=
      Svg.Style.infix_color (Stylesheet.subset_resolved hincreasing hc)
    exact ⟨hpart ((Text.infix_join (by simp)).trans hcolor),
      hpart ((Text.infix_join (by simp)).trans hcolor)⟩
  · exact hpart ((Text.infix_join (by simp [style])).trans (Svg.Style.infix_font style _))

/-! ## Drawings of programs -/

namespace Lexeme

theorem IsIdentifier.legal {n : Text} (h : IsIdentifier n) : n.Legal := by
  have hstart : Markup.excluded.any isIdentifierStart = false := by decide
  cases h with
  | @identifier c rest start rest_ok =>
    exact Text.without_cons.2 ⟨fun hc => List.any_eq_false.1 hstart c hc start,
      .of_kind rest_ok (by decide)⟩

end Lexeme

theorem Instruction.legal_glyphAt (i : Instruction) (c : Channel) : (i.glyphAt c).Legal := by
  have hlabel (square : Bool) : (Glyph.box i.gate.label square).Legal := by
    show i.gate.label.Legal
    cases i.gate <;> decide
  unfold glyphAt
  repeat' split
  all_goals first | exact hlabel _ | trivial

namespace Circuit

variable {source : Text} {m : Circuit}

theorem legal_label (h : ofProgram source = .ok m) {c : Channel} (hc : c ∈ m.channels) :
    (m.label c).Legal := by
  obtain ⟨performed, s, hrun, hfinish⟩ := executes_of_ofProgram h
  have hname := (isIdentifier_shownName hrun hfinish hc).legal
  unfold label
  split
  · exact hname
  · exact Text.without_cons.2 ⟨by decide, Text.without_append.2 ⟨hname, by decide⟩⟩

theorem legal_caption (h : ofProgram source = .ok m) {r : Subroutine} (hr : r ∈ m.subroutines) :
    r.name.Legal ∧ r.caption.Legal := by
  obtain ⟨executed, s, hexecuted, hfinish⟩ := executes_of_ofProgram h
  have hnames : List.Forall₂ (fun r _ => r.name.Legal ∧ True) m.subroutines _ :=
    ((entitled_of_finish hexecuted hfinish).imp fun _ r ⟨_, _, hread, hname, _⟩ =>
      ⟨show r.title.1.Legal from hname ▸ (Statement.isIdentifier_of_header hread).legal,
        trivial⟩).flip
  have hname : r.name.Legal := ((List.forall₂_and_left _ _).1 hnames).1 r hr
  refine ⟨hname, ?_⟩
  unfold Subroutine.caption
  split
  · exact Text.without_append.2 ⟨hname, Text.without_cons.2 ⟨by decide,
      Text.without_append.2 ⟨(Decimal.plain_natural _).legal, by decide⟩⟩⟩
  · exact hname

theorem legal_layout (h : ofProgram source = .ok m) (surface : Size) (f : TextMetrics)
    (settings : LayoutSettings) : (m.layout surface f settings).Legal where
  labels := by
    refine List.forall_mem_map.2 fun row hrow => legal_label h ?_
    have hvisible : row.channel ∈ m.visibleRows :=
      Scene.map_channel_rows (Division.exact m surface f settings) ▸ List.mem_map_of_mem hrow
    exact (List.mem_filter.1 hvisible).1
  elements := by
    intro e he
    obtain ⟨row, -, column, -, he⟩ := Scene.mem_elements.1 he
    obtain ⟨i, -, rfl⟩ := Scene.element?_eq_some.1 he
    exact i.legal_glyphAt _
  brackets := by
    intro b hb
    replace hb : b ∈ (m.scene surface f settings).brackets := hb
    unfold Scene.brackets at hb
    split at hb
    · cases hb
    · obtain ⟨r, hr, rfl⟩ := List.mem_map.1 hb
      exact legal_caption h hr

/-- **The drawing of a program is well-formed**: its text is one `svg` element, behind an XML
declaration if it stands alone, if what begins the class names and what the stylesheet says have
none of the characters that would have to be escaped, none that XML excludes, and, for the
stylesheet, no `]]>`. -/
theorem wellFormed_svg (h : ofProgram source = .ok m) (surface : Size) (f : TextMetrics)
    (settings : LayoutSettings) {s : Svg.Settings} {stylesheet : Stylesheet}
    (hlead : ∀ t ∈ s.classPrefix, t.Plain)
    (hcolors : ∀ c ∈ stylesheet.colors, c.1.Verbatim ∧ c.2.Verbatim)
    (hfont : stylesheet.fontFamily.Verbatim) :
    let text := (m.layout surface f settings).svg s stylesheet
    (s.standalone = true → Markup.IsDocument "svg" text) ∧
      (s.standalone = false → Markup.IsElement "svg" text) :=
  Layout.wellFormed_text (legal_layout h surface f settings) hlead hcolors hfont

/-- The label of the qubit and the one in the box have a `>`. -/
theorem wellFormed_svg_prepz :
    (∀ t ∈ Svg.Settings.classPrefix {}, t.Plain) ∧
      (∀ c ∈ Stylesheet.default.colors, c.1.Verbatim ∧ c.2.Verbatim) ∧
      Stylesheet.default.fontFamily.Verbatim ∧
      ∃ m, ofProgram "qubits 1\n.start(2)\n prepz q0".toList = .ok m ∧
        let l := m.layout ⟨200, 100⟩ (FontMetrics.toTextMetrics ⟨10, 20⟩) {}
        Markup.IsDocument "svg" (l.svg {} .default) ∧
          Markup.IsElement "svg" (l.svg { standalone := false, pretty := false } .default) := by
  have hlead : ∀ t ∈ Svg.Settings.classPrefix {}, t.Plain := by
    intro t ht
    cases ht
    decide
  have hbare : ∀ c ∈ Stylesheet.default.colors, (c.1.Bare ∧ c.1.Legal ∧ c.1.NoSectionEnd) ∧
      c.2.Bare ∧ c.2.Legal ∧ c.2.NoSectionEnd := by decide
  have hcolors : ∀ c ∈ Stylesheet.default.colors, c.1.Verbatim ∧ c.2.Verbatim := fun c hc =>
    ⟨⟨(hbare c hc).1.1, (hbare c hc).1.2.1, (hbare c hc).1.2.2⟩,
      ⟨(hbare c hc).2.1, (hbare c hc).2.2.1, (hbare c hc).2.2.2⟩⟩
  have hfont : Stylesheet.default.fontFamily.Verbatim := ⟨by decide, by decide, by decide⟩
  have h : (ofProgram "qubits 1\n.start(2)\n prepz q0".toList).toOption.isSome = true := by
    decide +kernel
  obtain ⟨m, hm⟩ := Option.isSome_iff_exists.1 h
  have hm := toOption_eq_some.1 hm
  let f := FontMetrics.toTextMetrics ⟨10, 20⟩
  have hdocument := wellFormed_svg hm ⟨200, 100⟩ f {} (s := {}) hlead hcolors hfont
  have hfragment := wellFormed_svg hm ⟨200, 100⟩ f {}
    (s := { standalone := false, pretty := false }) hlead hcolors hfont
  exact ⟨hlead, hcolors, hfont, m, hm, hdocument.1 rfl, hfragment.2 rfl⟩

/-- A colour that ends a CDATA section, and class names that begin with a control character. -/
theorem not_wellFormed_svg :
    let f := FontMetrics.toTextMetrics ⟨10, 20⟩
    let s : Svg.Settings := { classPrefix := some ['\x01'] }
    ∃ m, ofProgram "qubits 1\nh q0".toList = .ok m ∧
      (∃ stylesheet, Stylesheet.read? "[colors]\nwire = \"]]>\"".toList = some stylesheet ∧
        (∀ c ∈ stylesheet.colors, c.1.Bare ∧ c.2.Bare) ∧ stylesheet.fontFamily.Bare ∧
        ¬Markup.IsDocument "svg" ((m.layout ⟨200, 100⟩ f {}).svg {} stylesheet)) ∧
      (∀ t ∈ s.classPrefix, t.Without ['<', '>', '&', '"', '\'']) ∧
      ¬Markup.IsDocument "svg" ((m.layout ⟨200, 100⟩ f {}).svg s .default) := by
  intro f s
  have hparse : (ofProgram "qubits 1\nh q0".toList).toOption.isSome = true := by decide +kernel
  have hread : (Stylesheet.read? "[colors]\nwire = \"]]>\"".toList).map
      (fun stylesheet => (stylesheet.colors, stylesheet.fontFamily)) =
      some ([("wire".toList, "]]>".toList)], Stylesheet.default.fontFamily) := by decide +kernel
  obtain ⟨m, hm⟩ := Option.isSome_iff_exists.1 hparse
  obtain ⟨stylesheet, hstylesheet, hread⟩ := Option.map_eq_some_iff.1 hread
  obtain ⟨hcolors, hfont⟩ := Prod.mk.inj hread
  have hbare : ∀ c ∈ stylesheet.colors, c.1.Bare ∧ c.2.Bare := by
    rw [hcolors]
    decide
  have hfontBare : stylesheet.fontFamily.Bare := by
    rw [hfont]
    decide
  refine ⟨m, toOption_eq_some.1 hm, ⟨stylesheet, hstylesheet, hbare, hfontBare, fun h => ?_⟩, ?_,
    fun h => ?_⟩
  · obtain ⟨-, hverbatim, -⟩ := Layout.verbatim_of_isDocument _ rfl
      (Stylesheet.increasing_read hstylesheet)
      (Svg.Style.closed_bare.text (by decide) hbare hfontBare) h
    have hwire := (hverbatim ("wire".toList, "]]>".toList) (by simp [hcolors])).2.noSectionEnd
    exact absurd hwire (by decide)
  · rintro t ⟨⟩
    decide
  · have hdefault : ∀ c ∈ Stylesheet.default.colors, c.1.Bare ∧ c.2.Bare := by decide
    have hfont : Stylesheet.default.fontFamily.Bare := by decide
    obtain ⟨hlegal, -⟩ := Layout.verbatim_of_isDocument _ rfl
      (Palette.Increasing.setAll List.Pairwise.nil _)
      (Svg.Style.closed_bare.text (by decide) hdefault hfont) h
    exact absurd hlegal (by decide)

end Circuit

end QuantumDiagram
