import QuantumDiagram.Proofs.Layout.Fitting
import QuantumDiagram.Proofs.Layout.Placement
import QuantumDiagram.Svg.Drawing

/-!
# What the shapes of an element extend over

Every shape just fits in a box (`Svg.Mark.Spans`). The shapes that are drawn for an element stay in
the bounds of the element, however it is squeezed, but for the arc of a meter: its radius is taken
from the width alone, and in a box that is flat enough it goes beyond the upper edge
(`Circuit.staysIn_layout`). On a surface that is large enough no box is that flat.
-/

namespace QuantumDiagram

namespace Decimal

theorem integer_injective {m n : Int} (h : integer m = integer n) : m = n := by
  have hsign (k : Nat) (t : Text) : natural k ≠ '-' :: t := by
    intro heq
    have hdigits := all_isDigit_natural k
    rw [heq] at hdigits
    cases hdigits
  cases m with
  | ofNat m =>
    cases n with
    | ofNat n => exact congrArg Int.ofNat (natural_injective h)
    | negSucc n => exact absurd h (hsign _ _)
  | negSucc m =>
    cases n with
    | ofNat n => exact absurd h.symm (hsign _ _)
    | negSucc n =>
      have hsucc := natural_injective (List.cons.inj h).2
      rw [Nat.succ.inj hsucc]

theorem blank_not_mem_integer (n : Int) : ' ' ∉ integer n := by
  have hdigits (k : Nat) : ' ' ∉ natural k := fun h =>
    absurd (List.all_eq_true.1 (all_isDigit_natural k) _ h) (by decide)
  cases n with
  | ofNat n => exact hdigits n
  | negSucc n => simp [integer, hdigits]

end Decimal

namespace Svg

/-! ## The box around a shape -/

namespace Meter

/-- The words of the commands, which have blanks between them. -/
def arcWords (m : Meter) : List Text :=
  ['M' :: Decimal.integer (m.middle.x - m.radius), Decimal.integer m.middle.y,
    'A' :: Decimal.integer m.radius, Decimal.integer m.radius, "0", "0", "1",
    Decimal.integer (m.middle.x + m.radius), Decimal.integer m.middle.y]

theorem arc_eq_joinWith (m : Meter) : m.arc = Text.joinWith " " m.arcWords := by
  simp [arc, arcWords, Text.join, Text.joinWith, List.intercalate]

/-- The commands tell where the arc is and how large it is. -/
theorem arc_inj {m m' : Meter} (h : m.arc = m'.arc) :
    m.middle = m'.middle ∧ m.radius = m'.radius := by
  have hwords (m : Meter) : m.arc.splitOn ' ' = m.arcWords := by
    rw [arc_eq_joinWith]
    refine List.splitOn_intercalate ' ' (fun word hword => ?_) (by simp [arcWords])
    simp only [arcWords, List.mem_cons, List.not_mem_nil, or_false] at hword
    rcases hword with rfl | rfl | rfl | rfl | rfl | rfl | rfl | rfl | rfl <;>
      simp [Decimal.blank_not_mem_integer]
  have heq : m.arcWords = m'.arcWords := by rw [← hwords, ← hwords, h]
  obtain ⟨⟨x, y⟩, radius, tip⟩ := m
  obtain ⟨⟨x', y'⟩, radius', tip'⟩ := m'
  simp only [arcWords, List.cons.injEq] at heq
  obtain ⟨⟨-, hleft⟩, hy, -, hradius, -⟩ := heq
  obtain rfl : y = y' := Decimal.integer_injective hy
  obtain rfl : radius = radius' := Decimal.integer_injective hradius
  have hx : x - radius = x' - radius := Decimal.integer_injective hleft
  obtain rfl : x = x' := by omega
  exact ⟨rfl, rfl⟩

end Meter

/-- The box that a shape just fits in. An arc is a half circle above its middle. -/
inductive Mark.Spans : Mark → Box → Prop
  | rect {b : Box} {kind : Text} : Spans (.rect b kind) b
  | circle {center : Point} {radius : Int} {kind : Text} :
    Spans (.circle center radius kind)
      ⟨center.x - radius, center.y - radius, 2 * radius, 2 * radius⟩
  | line {p q : Point} {kind : Text} :
    Spans (.line p q kind)
      ⟨min p.x q.x, min p.y q.y, max p.x q.x - min p.x q.x, max p.y q.y - min p.y q.y⟩
  | arc {m : Meter} {kind : Text} :
    Spans (.path m.arc kind)
      ⟨m.middle.x - m.radius, m.middle.y - m.radius, 2 * m.radius, m.radius⟩

theorem Mark.Spans.unique {mark : Mark} {b c : Box} (hb : mark.Spans b) (hc : mark.Spans c) :
    b = c := by
  cases hb with
  | rect => cases hc; rfl
  | circle => cases hc; rfl
  | line => cases hc; rfl
  | @arc m kind =>
    generalize harc : Mark.path m.arc kind = mark at hc
    cases hc with
    | @arc m' =>
      obtain ⟨hmiddle, hradius⟩ := Meter.arc_inj (Mark.path.inj harc).1
      rw [hmiddle, hradius]
    | _ => cases harc

/-- Whether the mark draws something other than a text. -/
def Mark.isShape : Mark → Bool
  | .rect .. | .circle .. | .line .. | .path .. | .arrow .. => true
  | .label .. | .openGroup .. | .closeGroup => false

def Mark.isPath : Mark → Bool
  | .path .. => true
  | _ => false

/-- No part of the shape is outside of the box. -/
def Mark.StaysIn (mark : Mark) (b : Box) : Prop :=
  ∃ extent, mark.Spans extent ∧ b.contains extent = true

theorem Mark.Spans.staysIn_iff {mark : Mark} {extent b : Box} (h : mark.Spans extent) :
    mark.StaysIn b ↔ b.contains extent = true := by
  constructor
  · rintro ⟨extent', h', hcontains⟩
    rwa [h.unique h']
  · exact fun hcontains => ⟨extent, h, hcontains⟩

/-! ## The radius of a meter -/

/-- Rounding adds at most half a unit of the last of 53 digits. -/
theorem roundToPrecision_le (n : Nat) :
    9007199254740992 * roundToPrecision n ≤ 9007199254740993 * n := by
  have hdivision := Nat.div_add_mod n (Nat.pow 2 (n.log2 + 1 - 53))
  have hunit : Nat.pow 2 (n.log2 + 1 - 53) = 1 ∨
      4503599627370496 * Nat.pow 2 (n.log2 + 1 - 53) ≤ n := by
    rcases Nat.lt_or_ge n.log2 53 with hshort | hlong
    · exact .inl (by rw [show n.log2 + 1 - 53 = 0 by omega])
    · refine .inr ?_
      calc 4503599627370496 * Nat.pow 2 (n.log2 + 1 - 53)
          = 2 ^ 52 * 2 ^ (n.log2 + 1 - 53) := rfl
        _ = 2 ^ n.log2 := by rw [← Nat.pow_add, show 52 + (n.log2 + 1 - 53) = n.log2 by omega]
        _ ≤ n := Nat.log2_self_le (by rintro rfl; cases hlong)
  unfold roundToPrecision
  generalize Nat.pow 2 (n.log2 + 1 - 53) = unit at hdivision hunit ⊢
  rw [Nat.mul_comm] at hdivision
  have hup : (n / unit + 1) * unit = n / unit * unit + unit := Nat.succ_mul _ _
  dsimp only
  split <;> omega

/-- The arc is less wide than the box, by a fifth at least. -/
theorem meterRadius_le {width : Int} (h : 0 ≤ width) : 5 * meterRadius width ≤ 2 * width := by
  have hround := roundToPrecision_le (width.toNat * 6305039478318694)
  have hpower : ((Nat.pow 2 54 : Nat) : Int) = 18014398509481984 := rfl
  unfold meterRadius
  rw [hpower]
  omega

theorem meterRadius_nonneg (width : Int) : 0 ≤ meterRadius width := by
  have hpower : ((Nat.pow 2 54 : Nat) : Int) = 18014398509481984 := rfl
  unfold meterRadius
  rw [hpower]
  omega

/-! ## Shapes in their boxes -/

section Boxes

variable {b : Box} {kind : Text}

theorem staysIn_rect (b : Box) (kind : Text) : (Mark.rect b kind).StaysIn b :=
  ⟨b, .rect, by simp [Box.contains_iff]⟩

theorem staysIn_line {p q : Point} (hp : b.Holds p) (hq : b.Holds q) :
    (Mark.line p q kind).StaysIn b := by
  rw [Mark.Spans.line.staysIn_iff]
  simp only [Box.contains_iff, Box.Holds, Box.right, Box.bottom] at *
  omega

theorem staysIn_circle (hw : 0 ≤ b.width) (hh : 0 ≤ b.height) :
    (Mark.circle b.center ((min b.width b.height).tdiv 2) kind).StaysIn b := by
  rw [Mark.Spans.circle.staysIn_iff]
  simp only [Box.contains_iff, Box.right, Box.bottom, Box.center]
  simp (disch := omega) only [Int.tdiv_eq_ediv_of_nonneg]
  omega

/-- The arc of a meter goes beyond its box only at the upper edge. -/
theorem staysIn_arc_iff (hw : 0 ≤ b.width) (hh : 0 ≤ b.height) :
    (Mark.path (Meter.inBox b).arc kind).StaysIn b ↔
      meterRadius b.width ≤ (3 * b.height).tdiv 5 := by
  have hradius := meterRadius_le hw
  have hnonneg := meterRadius_nonneg b.width
  rw [Mark.Spans.arc.staysIn_iff]
  simp only [Box.contains_iff, Box.right, Box.bottom, Meter.inBox]
  simp (disch := omega) only [Int.tdiv_eq_ediv_of_nonneg]
  omega

/-- In a box that is at least two thirds as high as it is wide, there is room for the arc. -/
theorem meterRadius_le_of_le (hw : 0 ≤ b.width) (h : 2 * b.width ≤ 3 * b.height) :
    meterRadius b.width ≤ (3 * b.height).tdiv 5 := by
  have hradius := meterRadius_le hw
  simp (disch := omega) only [Int.tdiv_eq_ediv_of_nonneg]
  omega

theorem staysIn_glyphMarks (hw : 0 ≤ b.width) (hh : 0 ≤ b.height) {g : Glyph} {mark : Mark}
    (hmark : mark ∈ glyphMarks g b) (hshape : mark.isShape = true) :
    mark.StaysIn b ↔
      (mark.isPath = true → meterRadius b.width ≤ (3 * b.height).tdiv 5) := by
  have hall {mark : Mark} (hstays : mark.StaysIn b) (hpath : mark.isPath = false) :
      mark.StaysIn b ↔ (mark.isPath = true → meterRadius b.width ≤ (3 * b.height).tdiv 5) := by
    simp [hstays, hpath]
  cases g with
  | box label square =>
    rcases List.mem_pair.1 hmark with rfl | rfl
    · exact hall (staysIn_rect _ _) rfl
    · cases hshape
  | meter =>
    simp only [glyphMarks, Meter.marks, List.mem_cons, List.not_mem_nil, or_false] at hmark
    rcases hmark with rfl | rfl | rfl
    · exact hall (staysIn_rect _ _) rfl
    · simp [staysIn_arc_iff hw hh, Mark.isPath]
    · refine hall (staysIn_line ?_ ?_) rfl <;>
        simp (disch := omega) only [Meter.inBox, Box.Holds, Box.right, Box.bottom,
          Int.tdiv_eq_ediv_of_nonneg] <;> omega
  | dot =>
    obtain rfl := List.mem_singleton.1 hmark
    exact hall (staysIn_circle hw hh) rfl
  | target =>
    simp only [glyphMarks, List.mem_cons, List.not_mem_nil, or_false] at hmark
    rcases hmark with rfl | rfl | rfl
    · exact hall (staysIn_circle hw hh) rfl
    all_goals
      refine hall (staysIn_line ?_ ?_) rfl <;>
        simp (disch := omega) only [Box.center, Box.Holds, Box.right, Box.bottom,
          Int.tdiv_eq_ediv_of_nonneg] <;> omega
  | cross =>
    rcases List.mem_pair.1 hmark with rfl | rfl
    all_goals
      refine hall (staysIn_line ?_ ?_) rfl <;>
        simp only [Box.Holds, Box.right, Box.bottom] <;> omega

theorem mem_glyphMarks_of_isShape {s : Settings} {e : Element} {mark : Mark}
    (h : mark ∈ elementMarks s e) (hshape : mark.isShape = true) :
    mark ∈ glyphMarks e.glyph e.bounds := by
  rcases List.mem_cons.1 h with rfl | h
  · cases hshape
  rcases List.mem_append.1 h with h | h
  · exact h
  · obtain rfl := List.mem_singleton.1 h
    cases hshape

/-- Only a meter has an arc. -/
theorem eq_meter_of_isPath {g : Glyph} {mark : Mark} (h : mark ∈ glyphMarks g b)
    (hpath : mark.isPath = true) : g = .meter := by
  cases g with
  | meter => rfl
  | _ =>
    simp only [glyphMarks, List.mem_cons, List.not_mem_nil, or_false] at h
    rcases h with rfl | rfl | rfl <;> cases hpath

end Boxes

end Svg

/-! ## Layouts -/

namespace Layout

/-- All shapes that are drawn for the elements stay in the bounds of their element. -/
def ShapesStay (l : Layout) (svg : Svg.Settings) : Prop :=
  ∀ e ∈ l.elements, ∀ mark ∈ Svg.elementMarks svg e, mark.isShape = true → mark.StaysIn e.bounds

/-- All shapes that are drawn for the elements stay in the bounds of their element, but for the arc
of a meter, which does just if its radius, taken from the width alone, fits between its ends and the
upper edge. -/
def ShapesStayUnlessFlat (l : Layout) (svg : Svg.Settings) : Prop :=
  ∀ e ∈ l.elements, ∀ mark ∈ Svg.elementMarks svg e, mark.isShape = true →
    (mark.StaysIn e.bounds ↔ (mark.isPath = true →
      Svg.meterRadius e.bounds.width ≤ (3 * e.bounds.height).tdiv 5))

/-- In boxes without a negative size, all shapes but a flat arc stay. -/
theorem shapesStayUnlessFlat {l : Layout}
    (h : ∀ e ∈ l.elements, 0 ≤ e.bounds.width ∧ 0 ≤ e.bounds.height) (svg : Svg.Settings) :
    l.ShapesStayUnlessFlat svg := by
  intro e he mark hmark hshape
  obtain ⟨hw, hh⟩ := h e he
  exact Svg.staysIn_glyphMarks hw hh (Svg.mem_glyphMarks_of_isShape hmark hshape) hshape

/-- If moreover no meter is flat, all shapes stay. -/
theorem ShapesStayUnlessFlat.shapesStay {l : Layout} {svg : Svg.Settings}
    (h : l.ShapesStayUnlessFlat svg)
    (hmeter : ∀ e ∈ l.elements, e.glyph = .meter →
      0 ≤ e.bounds.width ∧ e.bounds.width = e.bounds.height) : l.ShapesStay svg := by
  intro e he mark hmark hshape
  refine (h e he mark hmark hshape).2 fun hpath => ?_
  have hglyph := Svg.eq_meter_of_isPath (Svg.mem_glyphMarks_of_isShape hmark hshape) hpath
  obtain ⟨hw, hsquare⟩ := hmeter e he hglyph
  exact Svg.meterRadius_le_of_le hw (by omega)

end Layout

theorem Scene.nonneg_bounds {s : Scene} {e : Element} (h : e ∈ s.elements) :
    0 ≤ e.bounds.width ∧ 0 ≤ e.bounds.height := by
  obtain ⟨row, -, column, -, he⟩ := mem_elements.1 h
  obtain ⟨i, -, rfl⟩ := element?_eq_some.1 he
  exact ⟨le_max_left _ _, le_max_left _ _⟩

namespace Circuit

variable {m : Circuit} {surface : Size} {f : TextMetrics} {s : LayoutSettings}

/-- On a large enough surface a meter is as wide as it is high. -/
theorem width_meter_eq_height (p : Precision) (hsurface : surface.width ≤ 2147483647)
    (hheights : total (m.minHeights f s) ≤ 2147483647)
    (h : (m.layout surface f s).cramped = none) {e : Element}
    (he : e ∈ (m.layoutWith p surface f s).elements) (hmeter : e.glyph = .meter) :
    e.bounds.width = e.bounds.height := by
  have hroom := Scene.hasRoom_element (l := m.layoutWith p surface f s)
    (roomy_frameWith p hsurface hheights h) rfl rfl he
  rw [hroom.width, hroom.height, hmeter]
  rfl

/-- **The shapes of an element stay in its bounds**, on every surface and in any arithmetic, but for
the arc of a meter that the surface has squeezed flat. On a large enough surface no meter is flat,
however the shares are rounded. -/
theorem staysIn_layout (m : Circuit) (surface : Size) (f : TextMetrics) (s : LayoutSettings)
    (svg : Svg.Settings) :
    ((m.layout surface f s).ShapesStayUnlessFlat svg ∧
      ∀ a : Arithmetic, (m.layoutBy a surface f s).ShapesStayUnlessFlat svg) ∧
    (surface.width ≤ 2147483647 → total (m.minHeights f s) ≤ 2147483647 →
      (m.layout surface f s).cramped = none →
      (m.layout surface f s).ShapesStay svg ∧
        ∀ p : Precision, (m.layoutWith p surface f s).ShapesStay svg) := by
  refine ⟨Division.forall_layout (·.ShapesStayUnlessFlat svg) fun d =>
    Layout.shapesStayUnlessFlat (fun _ he => Scene.nonneg_bounds (s := d.scene) he) svg,
    fun hsurface hheights hcramped => ?_⟩
  have hrounded (p : Precision) : (m.layoutWith p surface f s).ShapesStay svg := by
    let scene : Scene := ⟨m, m.frameWith p (drawable surface) f s, f, s⟩
    have hnonneg : ∀ e ∈ scene.elements, 0 ≤ e.bounds.width ∧ 0 ≤ e.bounds.height :=
      fun _ he => Scene.nonneg_bounds he
    exact (Layout.shapesStayUnlessFlat hnonneg svg).shapesStay fun e he hmeter =>
      ⟨(hnonneg e he).1, width_meter_eq_height p hsurface hheights hcramped he hmeter⟩
  refine ⟨?_, hrounded⟩
  rw [← layoutWith_exact]
  exact hrounded .exact

/-- On a flat surface the top of this arc is eight units above its ends, four units above the box;
on a higher one all shapes stay. -/
theorem staysIn_layout_squeezed :
    let source := "qubits 1\nmeasure q0".toList
    let f := FontMetrics.toTextMetrics ⟨9, 18⟩
    let mark := Svg.Mark.path "M595 4 A8 8 0 0 1 611 4" "meter"
    ∃ m, ofProgram source = .ok m ∧
      (∃ e ∈ (m.layout ⟨800, 10⟩ f {}).elements, e.bounds = ⟨591, 0, 24, 8⟩ ∧
        mark ∈ Svg.elementMarks {} e ∧ mark.isShape = true ∧ ¬mark.StaysIn e.bounds) ∧
      total (m.minHeights f {}) ≤ 2147483647 ∧ (m.layout ⟨800, 400⟩ f {}).cramped = none ∧
      (m.layout ⟨800, 400⟩ f {}).ShapesStay {} := by
  intro source f mark
  have h : (ofProgram source).toOption.map (fun m =>
      ((m.layout ⟨800, 10⟩ f {}).elements.map fun e => (e.glyph, e.bounds),
        total (m.minHeights f {}), (m.layout ⟨800, 400⟩ f {}).cramped)) =
        some ([(.meter, ⟨591, 0, 24, 8⟩), (.dot, ⟨598, 8, 10, 2⟩)], 42, none) := by
    decide +kernel
  obtain ⟨m, hm, hlayouts⟩ := Option.map_eq_some_iff.1 h
  simp only [Prod.mk.injEq] at hlayouts
  obtain ⟨helements, htotal, hcramped⟩ := hlayouts
  have hheights : total (m.minHeights f {}) ≤ 2147483647 := by omega
  have hstay := ((staysIn_layout m ⟨800, 400⟩ f {} {}).2 (by decide) hheights hcramped).1
  obtain ⟨e, _, he, hglyph, -⟩ := List.map_eq_cons_iff.1 helements
  have hmem : e ∈ (m.layout ⟨800, 10⟩ f {}).elements := he ▸ List.mem_cons_self
  obtain ⟨hmeter, hbounds⟩ := Prod.mk.inj hglyph
  have hmark : mark ∈ Svg.elementMarks {} e := by
    refine List.mem_cons_of_mem _ (List.mem_append_left _ ?_)
    rw [hmeter, hbounds]
    exact List.mem_cons_of_mem _ List.mem_cons_self
  refine ⟨m, toOption_eq_some.1 hm, ⟨e, hmem, hbounds, hmark, rfl, fun hstays => ?_⟩, hheights,
    hcramped, hstay⟩
  have hiff := (staysIn_layout m ⟨800, 10⟩ f {} {}).1.1 e hmem mark hmark rfl
  have hradius := hiff.1 hstays rfl
  rw [hbounds] at hradius
  exact absurd hradius (by decide)

end Circuit

end QuantumDiagram
