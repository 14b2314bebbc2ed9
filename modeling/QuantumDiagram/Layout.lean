import QuantumDiagram.Layout.Lines

/-!
# Computing a layout

The surface is divided into a column of labels and the columns of the circuit, and into the visible
rows. If there are subroutines, a row of captions below has a height of its own that the surface's
division leaves out. Everything else is read off the resulting frame.
-/

namespace QuantumDiagram

namespace Scene

/-! ## Brackets -/

/-- The bracket of a subroutine, in the given row of captions. The caption stands at the lower end
of the row, and the line in the middle of the space above it. -/
def bracket (s : Scene) (row : Band) (sub : Subroutine) : Bracket :=
  let area := Box.ofBands (s.frame.columnSpan (sub.start + 1) (sub.stop + 1)) row
  let line := s.metrics.lineHeight
  let margin := s.settings.captionMargin
  let y := saturate ((2 * area.y + (area.height - line - margin)).tdiv 2)
  { name := sub.name
    caption := sub.caption
    area
    left := ⟨area.x, y⟩
    right := ⟨area.right, y⟩
    anchor := ⟨saturate ((2 * area.x + area.width).tdiv 2),
      saturate ((2 * area.bottom - line - margin).tdiv 2)⟩
    guideTop := (s.frame.heights.headD 0).tdiv 4 }

/-- The brackets, if there is a row of captions. -/
def brackets (s : Scene) : List Bracket :=
  match s.captionBand? with
  | none => []
  | some row => s.circuit.subroutines.map (s.bracket row)

end Scene

namespace Circuit

/-! ## The frame -/

def labelRowHeight (m : Circuit) (f : TextMetrics) (s : LayoutSettings) : Int :=
  if m.subroutines.isEmpty then 0 else s.labelRowLines * f.lineHeight

/-- The greatest of some sizes, at least zero. -/
def largest (sizes : List Int) : Int := sizes.foldl max 0

/-- The least widths of the label column and the columns of the circuit. -/
def minWidths (m : Circuit) (f : TextMetrics) (s : LayoutSettings) : List Int :=
  let cells := m.grid.toList.map fun (site, i) =>
    (site.column, ((i.glyphAt site.channel).minSize f s).width)
  largest (m.visibleRows.map fun c => f.textWidth (m.label c)) ::
    (List.range m.columns).map fun column =>
      largest ((cells.filter (·.1 = column)).map (·.2))

def minHeights (m : Circuit) (f : TextMetrics) (s : LayoutSettings) : List Int :=
  let rows := m.grid.rows
  m.visibleRows.map fun c =>
    largest (f.lineHeight ::
      (rows.getD c []).map fun cell => ((cell.2.glyphAt c).minSize f s).height)

def requiredSize (m : Circuit) (f : TextMetrics) (s : LayoutSettings) : Size where
  width := total (m.minWidths f s)
  height := total (m.minHeights f s) + m.labelRowHeight f s

def frame (m : Circuit) (surface : Size) (f : TextMetrics) (s : LayoutSettings) : Frame :=
  let captions := m.labelRowHeight f s
  { widths := distribute (m.minWidths f s) surface.width
    heights := distribute (m.minHeights f s) (saturate (surface.height - captions)) ++
      if 0 < captions then [captions] else [] }

/-! ## The layout -/

/-- A surface without its negative sizes. -/
def drawable (surface : Size) : Size := ⟨max 0 surface.width, max 0 surface.height⟩

/-- Whether the surface is too small for the circuit. -/
def cramped? (m : Circuit) (surface : Size) (f : TextMetrics) (s : LayoutSettings) :
    Option Cramped :=
  Cramped.check (m.requiredSize f s) (drawable surface)

def scene (m : Circuit) (surface : Size) (f : TextMetrics) (s : LayoutSettings) : Scene :=
  ⟨m, m.frame (drawable surface) f s, f, s⟩

/-- The layout of the circuit on a surface. There always is one: on a surface that is too small,
parts of it are squeezed, and it says so. -/
def layout (m : Circuit) (surface : Size) (f : TextMetrics) (s : LayoutSettings) : Layout :=
  let scene := m.scene surface f s
  { frame := scene.frame
    rows := m.visibleRows
    labels := scene.labels
    elements := scene.elements
    segments := scene.wires ++ scene.connectors
    brackets := scene.brackets
    doubleLineGap := s.doubleLineGap
    borderWidth := s.borderWidth
    cramped := m.cramped? surface f s }

end Circuit

end QuantumDiagram
