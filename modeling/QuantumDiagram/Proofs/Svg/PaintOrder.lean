import QuantumDiagram.Proofs.Layout.Scene
import QuantumDiagram.Proofs.Program.Invariant
import QuantumDiagram.Svg.Drawing

/-!
# What is painted over what

SVG paints in the order of the document. The kind of a row is read off its text: the background, a
wire or connector, or a figure, which is a text or a group. `Circuit.paintOrder_layout` says how the
kinds follow one another in the drawing of a circuit: the wires and connectors come first, then the
background, then the figures. The background is thus painted over all wires and connectors, unless
there are none, which is so just if the circuit has no columns.
-/

namespace QuantumDiagram

namespace Svg

/-! ## Kinds of rows -/

namespace Row

/-- The row is the tag of an element without content, of the given class. -/
def IsTag (r : Row) (s : Settings) (name kind : Text) : Prop :=
  Text.join ["<", name, " class=\"", s.className kind, "\""] <+: r.text

def IsBackground (r : Row) (s : Settings) : Prop := r.IsTag s "rect" "background"

/-- A line between cells. -/
def IsLine (r : Row) (s : Settings) : Prop := r.IsTag s "line" "wire" ∨ r.IsTag s "line" "connector"

/-- A text, or the group of a gate or a subroutine. -/
def IsFigure (r : Row) : Prop := "<text ".toList <+: r.text ∨ "<g ".toList <+: r.text

instance (r : Row) (s : Settings) : Decidable (r.IsBackground s) :=
  inferInstanceAs (Decidable (_ <+: r.text))

/-! Two characters tell the tags apart. -/

theorem IsBackground.take {r : Row} {s : Settings} (h : r.IsBackground s) :
    r.text.take 2 = "<r".toList := by
  obtain ⟨rest, hr⟩ := h
  rw [← hr]
  rfl

theorem IsLine.take {r : Row} {s : Settings} (h : r.IsLine s) : r.text.take 2 = "<l".toList := by
  obtain ⟨rest, hr⟩ | ⟨rest, hr⟩ := h <;> rw [← hr] <;> rfl

theorem not_isBackground {r : Row} {t : Text} (ht : r.text.take 2 = t) (hne : t ≠ "<r".toList)
    (s : Settings) : ¬r.IsBackground s :=
  fun h => hne (ht.symm.trans h.take)

theorem not_isLine {r : Row} {t : Text} (ht : r.text.take 2 = t) (hne : t ≠ "<l".toList)
    (s : Settings) : ¬r.IsLine s :=
  fun h => hne (ht.symm.trans h.take)

theorem not_isFigure {r : Row} {t : Text} (ht : r.text.take 2 = t)
    (hne : t ≠ "<t".toList ∧ t ≠ "<g".toList) : ¬r.IsFigure := by
  rintro (⟨rest, hr⟩ | ⟨rest, hr⟩) <;> rw [← hr] at ht
  · exact hne.1 ht.symm
  · exact hne.2 ht.symm

end Row

/-- In the rows, everything of the first kind is before everything of the second kind. -/
def Precedes (rows : List Row) (first second : Row → Prop) : Prop :=
  ∀ (i j : Nat) (r t : Row), rows[i]? = some r → rows[j]? = some t → first r → second t → i < j

theorem Precedes.append {xs ys : List Row} {first second : Row → Prop}
    (hx : ∀ r ∈ xs, ¬second r) (hy : ∀ r ∈ ys, ¬first r) : Precedes (xs ++ ys) first second := by
  intro i j r t hi hj hr ht
  have hbefore : i < xs.length := by
    by_cases h : i < xs.length
    · exact h
    · rw [List.getElem?_append_right (by omega)] at hi
      exact absurd hr (hy r (List.mem_of_getElem? hi))
  have hafter : ¬j < xs.length := by
    intro h
    rw [List.getElem?_append_left h] at hj
    exact hx t (List.mem_of_getElem? hj) ht
  omega

/-- Two kinds cannot precede each other, unless one of them is missing. -/
theorem Precedes.asymm {rows : List Row} {first second : Row → Prop}
    (h : Precedes rows first second) {r t : Row} (hr : r ∈ rows) (ht : t ∈ rows) (hfirst : first r)
    (hsecond : second t) : ¬Precedes rows second first := by
  intro h'
  obtain ⟨i, hi⟩ := List.mem_iff_getElem?.1 hr
  obtain ⟨j, hj⟩ := List.mem_iff_getElem?.1 ht
  have hlt := h i j r t hi hj hfirst hsecond
  have hgt := h' j i t r hj hi hsecond hfirst
  omega

/-! ## The rows of a document -/

/-- The rows before the first thing that is painted. -/
def Document.preamble (d : Document) (s : Settings) (area : Box) : List Row :=
  (if s.standalone then [⟨0, "<?xml version=\"1.0\" encoding=\"UTF-8\"?>"⟩] else []) ++
    ⟨0, rootTag s area⟩ ::
      (blockRows "style" (d.styles.map (·.text (s.className []))) ++
        blockRows "defs" (List.replicate d.arrowHeads (arrowHead s)))

theorem Document.rows_eq (d : Document) (s : Settings) (area : Box) :
    d.rows s area = d.preamble s area ++ d.lines.map (lineRow s) ++ markRows s 1 d.marks := by
  simp only [rows, preamble, List.append_assoc, List.cons_append]

theorem take_of_mem_blockRows {name : Text} {contents : List Text} {r : Row}
    (h : r ∈ blockRows name contents) : r.text.take 2 = "  ".toList := by
  unfold blockRows at h
  split at h
  · cases h
  · simp only [List.mem_cons, List.mem_append, List.mem_map, List.not_mem_nil, or_false] at h
    rcases h with rfl | ⟨t, -, rfl⟩ | rfl <;> rfl

theorem take_of_mem_preamble {d : Document} {s : Settings} {area : Box} {r : Row}
    (h : r ∈ d.preamble s area) : r.text.take 2 ∈ ["  ".toList, "<?".toList, "<s".toList] := by
  simp only [Document.preamble, List.mem_append, List.mem_cons] at h
  rcases h with h | rfl | h | h
  · split at h
    · rw [List.mem_singleton.1 h]
      exact List.mem_cons_of_mem _ List.mem_cons_self
    · cases h
  · exact List.mem_cons_of_mem _ (List.mem_cons_of_mem _ List.mem_cons_self)
  · rw [take_of_mem_blockRows h]
    exact List.mem_cons_self
  · rw [take_of_mem_blockRows h]
    exact List.mem_cons_self

/-- Nothing is painted before the lines. -/
theorem not_painted_of_mem_preamble {d : Document} {s : Settings} {area : Box} {r : Row}
    (h : r ∈ d.preamble s area) : ¬r.IsBackground s ∧ ¬r.IsLine s ∧ ¬r.IsFigure := by
  have htake := take_of_mem_preamble h
  simp only [List.mem_cons, List.not_mem_nil, or_false] at htake
  rcases htake with ht | ht | ht
  all_goals
    exact ⟨Row.not_isBackground ht (by decide) s, Row.not_isLine ht (by decide) s,
      Row.not_isFigure ht (by decide)⟩

theorem emptyTag_class (name value : Text) (rest : List Attribute) :
    emptyTag name (("class".toList, value) :: rest) =
      Text.join ["<", name, " class=\"", value, "\""] ++ (attributesText rest ++ "/>".toList) := by
  simp [emptyTag, attributesText, Text.join]

/-- Tags of one name differ in their class, for all class names begin alike. -/
theorem isTag_emptyTag_iff (s : Settings) (name kind kind' : Text) (rest : List Attribute)
    (depth : Nat) :
    (Row.mk depth (emptyTag name (("class".toList, s.className kind') :: rest))).IsTag s name kind ↔
      kind ++ "\"".toList <+: kind' ++ ("\"".toList ++ (attributesText rest ++ "/>".toList)) := by
  rw [Row.IsTag, emptyTag_class]
  simp only [Text.join, Settings.className, List.flatten_cons, List.flatten_nil, List.append_assoc,
    List.append_nil, List.prefix_append_right_inj]

theorem isTag_emptyTag (s : Settings) (name kind : Text) (rest : List Attribute) (depth : Nat) :
    (Row.mk depth (emptyTag name (("class".toList, s.className kind) :: rest))).IsTag
      s name kind := by
  rw [isTag_emptyTag_iff, List.prefix_append_right_inj]
  exact List.prefix_append _ _

theorem isLine_lineRow (s : Settings) (l : Segment) : (lineRow s l).IsLine s := by
  unfold lineRow
  cases l.kind with
  | wire => exact .inl (isTag_emptyTag ..)
  | connector => exact .inr (isTag_emptyTag ..)

theorem not_lineRow (s : Settings) (l : Segment) :
    ¬(lineRow s l).IsBackground s ∧ ¬(lineRow s l).IsFigure := by
  have htake : (lineRow s l).text.take 2 = "<l".toList := rfl
  exact ⟨Row.not_isBackground htake (by decide) s, Row.not_isFigure htake (by decide)⟩

/-! ## Marks -/

theorem exists_of_mem_markRows {s : Settings} {depth : Nat} {ms : List Mark} {r : Row}
    (h : r ∈ markRows s depth ms) : ∃ m ∈ ms, ∃ d, r = ⟨d, markText s m⟩ := by
  induction ms generalizing depth with
  | nil => cases h
  | cons m ms ih =>
    obtain ⟨d, e, hrows⟩ : ∃ d e,
        markRows s depth (m :: ms) = ⟨d, markText s m⟩ :: markRows s e ms := by
      cases m <;> exact ⟨_, _, rfl⟩
    rw [hrows] at h
    rcases List.mem_cons.1 h with rfl | h
    · exact ⟨m, List.mem_cons_self, d, rfl⟩
    · obtain ⟨m', hm', hr⟩ := ih h
      exact ⟨m', List.mem_cons_of_mem _ hm', hr⟩

/-- How the text of a mark begins. -/
def Mark.opening : Mark → Text
  | .rect .. => "<r"
  | .circle .. => "<c"
  | .line .. => "<l"
  | .path .. => "<p"
  | .label .. => "<t"
  | .arrow .. => "<l"
  | .openGroup .. => "<g"
  | .closeGroup => "</"

theorem take_markText (s : Settings) (m : Mark) : (markText s m).take 2 = m.opening := by
  cases m <;> rfl

/-- The marks that are neither the background nor a line between cells. -/
def Mark.IsForeground : Mark → Prop
  | .rect _ kind => kind = "box".toList
  | .line _ _ kind => kind ∈ ["meter".toList, "target".toList, "cross".toList, "guide".toList]
  | _ => True

theorem not_background_of_isForeground {s : Settings} {m : Mark} (h : m.IsForeground)
    (depth : Nat) : ¬(Row.mk depth (markText s m)).IsBackground s := by
  have htake : (Row.mk depth (markText s m)).text.take 2 = m.opening := take_markText s m
  cases m with
  | rect b kind =>
    obtain rfl : kind = "box".toList := h
    intro hback
    have hprefix := (isTag_emptyTag_iff ..).1 hback
    simp at hprefix
  | _ => exact Row.not_isBackground htake (by simp [Mark.opening]) s

theorem not_line_of_isForeground {s : Settings} {m : Mark} (h : m.IsForeground) (depth : Nat) :
    ¬(Row.mk depth (markText s m)).IsLine s := by
  have htake : (Row.mk depth (markText s m)).text.take 2 = m.opening := take_markText s m
  cases m with
  | line start stop kind =>
    simp only [Row.IsLine, markText, isTag_emptyTag_iff]
    simp only [Mark.IsForeground, List.mem_cons, List.not_mem_nil, or_false] at h
    rcases h with rfl | rfl | rfl | rfl <;> simp
  | arrow start stop =>
    simp only [Row.IsLine, markText, isTag_emptyTag_iff]
    simp
  | _ => exact Row.not_isLine htake (by simp [Mark.opening]) s

theorem isForeground_glyphMarks {g : Glyph} {b : Box} {m : Mark} (h : m ∈ glyphMarks g b) :
    m.IsForeground := by
  cases g <;> simp only [glyphMarks, Meter.marks, List.mem_cons, List.not_mem_nil, or_false] at h
  case box =>
    rcases h with rfl | rfl
    · rfl
    · trivial
  case meter =>
    rcases h with rfl | rfl | rfl
    · rfl
    · trivial
    · simp [Mark.IsForeground]
  case dot =>
    subst h
    trivial
  case target =>
    rcases h with rfl | rfl | rfl
    · trivial
    · simp [Mark.IsForeground]
    · simp [Mark.IsForeground]
  case cross =>
    rcases h with rfl | rfl <;> simp [Mark.IsForeground]

theorem isForeground_elementMarks {s : Settings} {e : Element} {m : Mark}
    (h : m ∈ elementMarks s e) : m.IsForeground := by
  simp only [elementMarks, List.mem_cons, List.mem_append, List.not_mem_nil, or_false] at h
  rcases h with rfl | h | rfl
  · trivial
  · exact isForeground_glyphMarks h
  · trivial

theorem isForeground_bracketMarks {s : Settings} {b : Bracket} {m : Mark}
    (h : m ∈ bracketMarks s b) : m.IsForeground := by
  simp only [bracketMarks, List.mem_cons, List.mem_append, List.mem_map, List.not_mem_nil,
    or_false] at h
  rcases h with rfl | rfl | rfl | ⟨g, -, rfl⟩ | rfl
  · trivial
  · trivial
  · trivial
  · simp [Mark.IsForeground]
  · trivial

/-! ## Drawings with a background -/

/-- How the rows of a drawing with a background follow one another. -/
structure PaintOrder (rows : List Row) (s : Settings) : Prop where
  single : rows.countP (·.IsBackground s) = 1
  lines_background : Precedes rows (·.IsLine s) (·.IsBackground s)
  lines_figures : Precedes rows (·.IsLine s) Row.IsFigure
  background_figures : Precedes rows (·.IsBackground s) Row.IsFigure

section

variable (l : Layout) (s : Settings) (stylesheet : Stylesheet)

/-- What is drawn on top of the background. -/
def figures : List Mark :=
  (l.labels.map fun label => .label label.text label.bounds.center) ++
    l.elements.flatMap (elementMarks s) ++ l.brackets.flatMap (bracketMarks s)

/-- The rows that are painted before the background. -/
def rowsBelow : List Row :=
  (l.draw s stylesheet).preamble s l.bounds ++
    (l.segments.flatMap (Segment.strokes l.doubleLineGap)).map (lineRow s)

def backgroundRow : Row := ⟨1, markText s (.rect l.bounds "background")⟩

theorem isForeground_of_mem_figures {m : Mark} (h : m ∈ figures l s) : m.IsForeground := by
  simp only [figures, List.mem_append, List.mem_map, List.mem_flatMap] at h
  rcases h with (⟨label, -, rfl⟩ | ⟨e, -, he⟩) | ⟨b, -, hb⟩
  · trivial
  · exact isForeground_elementMarks he
  · exact isForeground_bracketMarks hb

theorem rows_draw (hs : s.background = true) :
    (l.draw s stylesheet).rows s l.bounds =
      rowsBelow l s stylesheet ++ backgroundRow l s :: markRows s 1 (figures l s) := by
  have hmarks : (l.draw s stylesheet).marks = .rect l.bounds "background" :: figures l s := by
    simp [Layout.draw, hs, figures]
  rw [Document.rows_eq, hmarks]
  rfl

theorem isBackground_backgroundRow : (backgroundRow l s).IsBackground s :=
  isTag_emptyTag ..

theorem not_backgroundRow : ¬(backgroundRow l s).IsLine s ∧ ¬(backgroundRow l s).IsFigure := by
  have htake : (backgroundRow l s).text.take 2 = "<r".toList := rfl
  exact ⟨Row.not_isLine htake (by decide) s, Row.not_isFigure htake (by decide)⟩

theorem not_of_mem_rowsBelow {r : Row} (h : r ∈ rowsBelow l s stylesheet) :
    ¬r.IsBackground s ∧ ¬r.IsFigure := by
  rcases List.mem_append.1 h with h | h
  · have := not_painted_of_mem_preamble h
    exact ⟨this.1, this.2.2⟩
  · obtain ⟨line, -, rfl⟩ := List.mem_map.1 h
    exact not_lineRow s line

theorem not_of_mem_figures {r : Row} (h : r ∈ markRows s 1 (figures l s)) :
    ¬r.IsBackground s ∧ ¬r.IsLine s := by
  obtain ⟨m, hm, depth, rfl⟩ := exists_of_mem_markRows h
  have hforeground := isForeground_of_mem_figures l s hm
  exact ⟨not_background_of_isForeground hforeground depth,
    not_line_of_isForeground hforeground depth⟩

/-- The lines come first, then the background, then the figures. -/
theorem paintOrder_draw (hs : s.background = true) :
    PaintOrder ((l.draw s stylesheet).rows s l.bounds) s := by
  rw [rows_draw l s stylesheet hs]
  have hbelow (r : Row) (h : r ∈ rowsBelow l s stylesheet) := not_of_mem_rowsBelow l s stylesheet h
  have habove (r : Row) (h : r ∈ markRows s 1 (figures l s)) := not_of_mem_figures l s h
  have hlines (r : Row) (h : r ∈ backgroundRow l s :: markRows s 1 (figures l s)) :
      ¬r.IsLine s := by
    rcases List.mem_cons.1 h with rfl | h
    · exact (not_backgroundRow l s).1
    · exact (habove r h).2
  refine ⟨?single, ?lines_background, ?lines_figures, ?background_figures⟩
  case single =>
    have hnone : (rowsBelow l s stylesheet).countP (·.IsBackground s) = 0 :=
      List.countP_eq_zero.2 fun r h => by simpa using (hbelow r h).1
    have hrest : (markRows s 1 (figures l s)).countP (·.IsBackground s) = 0 :=
      List.countP_eq_zero.2 fun r h => by simpa using (habove r h).1
    rw [List.countP_append, hnone, List.countP_cons_of_pos, hrest]
    simpa using isBackground_backgroundRow l s
  case lines_background => exact .append (fun r h => (hbelow r h).1) hlines
  case lines_figures => exact .append (fun r h => (hbelow r h).2) hlines
  case background_figures =>
    -- Here the kinds change behind the background, not before it.
    rw [List.append_cons]
    refine .append ?_ fun r h => (habove r h).1
    intro r h
    rcases List.mem_append.1 h with h | h
    · exact (hbelow r h).2
    · rw [List.mem_singleton.1 h]
      exact (not_backgroundRow l s).2

theorem strokes_ne_nil (gap : Int) (segment : Segment) : segment.strokes gap ≠ [] := by
  unfold Segment.strokes
  split <;> exact List.cons_ne_nil _ _

theorem exists_isLine_iff (hs : s.background = true) :
    (∃ r ∈ (l.draw s stylesheet).rows s l.bounds, r.IsLine s) ↔ l.segments ≠ [] := by
  rw [rows_draw l s stylesheet hs]
  constructor
  · rintro ⟨r, hr, hline⟩ hnone
    rcases List.mem_append.1 hr with hr | hr
    · rw [rowsBelow, hnone] at hr
      have hpreamble : r ∈ (l.draw s stylesheet).preamble s l.bounds := by simpa using hr
      exact (not_painted_of_mem_preamble hpreamble).2.1 hline
    · rcases List.mem_cons.1 hr with rfl | hr
      · exact (not_backgroundRow l s).1 hline
      · exact (not_of_mem_figures l s hr).2 hline
  · intro hne
    obtain ⟨segment, hsegment⟩ := List.exists_mem_of_ne_nil _ hne
    obtain ⟨stroke, hstroke⟩ := List.exists_mem_of_ne_nil _
      (strokes_ne_nil l.doubleLineGap segment)
    refine ⟨lineRow s stroke, ?_, isLine_lineRow s stroke⟩
    apply List.mem_append_left
    apply List.mem_append_right
    apply List.mem_map_of_mem
    exact List.mem_flatMap.2 ⟨segment, hsegment, hstroke⟩

/-- Only where there are no lines, the background comes before them. -/
theorem background_precedes_lines_iff (hs : s.background = true) :
    Precedes ((l.draw s stylesheet).rows s l.bounds) (·.IsBackground s) (·.IsLine s) ↔
      l.segments = [] := by
  have hexists := exists_isLine_iff l s stylesheet hs
  constructor
  · intro h
    by_cases hnone : l.segments = []
    · exact hnone
    · obtain ⟨line, hmem, hline⟩ := hexists.2 hnone
      have hback : backgroundRow l s ∈ (l.draw s stylesheet).rows s l.bounds := by
        rw [rows_draw l s stylesheet hs]
        exact List.mem_append_right _ List.mem_cons_self
      have horder := (paintOrder_draw l s stylesheet hs).lines_background
      exact absurd h (horder.asymm hmem hback hline (isBackground_backgroundRow l s))
  · intro hnone i j r t _ hj _ ht
    exact absurd hnone (hexists.1 ⟨t, List.mem_of_getElem? hj, ht⟩)

end

end Svg

/-- **The background is painted over the wires and connectors** of a circuit that a program
describes, and below the figures. It comes before all wires and connectors, and these before all
figures, just if the circuit has no columns. -/
theorem Circuit.paintOrder_layout {source : Text} {m : Circuit} (h : ofProgram source = .ok m)
    (surface : Size) (f : TextMetrics) (settings : LayoutSettings) {s : Svg.Settings}
    (hs : s.background = true) (stylesheet : Stylesheet) :
    let l := m.layout surface f settings
    let rows := (l.draw s stylesheet).rows s l.bounds
    l.svg s stylesheet = rows.flatMap (Svg.Document.setRow s.pretty) ++ Svg.closeTag "svg" ∧
      Svg.PaintOrder rows s ∧
      (Svg.Precedes rows (·.IsBackground s) (·.IsLine s) ∧
          Svg.Precedes rows (·.IsLine s) Svg.Row.IsFigure ↔
        m.columns = 0) := by
  intro l rows
  have horder : Svg.PaintOrder rows s := Svg.paintOrder_draw l s stylesheet hs
  have hiff : Svg.Precedes rows (·.IsBackground s) (·.IsLine s) ↔ m.columns = 0 :=
    (Svg.background_precedes_lines_iff l s stylesheet hs).trans
      (segments_eq_nil_iff (qubits_pos_of_ofProgram h) surface f settings)
  refine ⟨rfl, horder, ?_⟩
  rw [← hiff]
  exact and_iff_left horder.lines_figures

/-- A gate on one qubit: its wire is below the background. -/
theorem Circuit.paintOrder_one_gate : ∃ m, ofProgram "qubits 1\nh q0".toList = .ok m ∧
    let l := m.layout ⟨800, 400⟩ (FontMetrics.ofSize 14) {}
    let rows := (l.draw {} .default).rows {} l.bounds
    Svg.PaintOrder rows {} ∧ ¬Svg.Precedes rows (·.IsBackground {}) (·.IsLine {}) := by
  have h : ((ofProgram "qubits 1\nh q0".toList).toOption.map columns) = some 1 := by
    decide +kernel
  obtain ⟨m, hm, hcolumns⟩ := Option.map_eq_some_iff.1 h
  have hm := toOption_eq_some.1 hm
  obtain ⟨-, horder, hiff⟩ :=
    paintOrder_layout hm ⟨800, 400⟩ (FontMetrics.ofSize 14) {} (s := {}) rfl .default
  refine ⟨m, hm, horder, fun hbefore => ?_⟩
  have hzero := hiff.1 ⟨hbefore, horder.lines_figures⟩
  omega

end QuantumDiagram
