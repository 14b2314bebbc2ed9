import QuantumDiagram.Circuit
import QuantumDiagram.Layout.Partition
import QuantumDiagram.Layout.Settings

/-!
# The parts of a layout

A layout gives the place of everything that is drawn for a circuit: the labels of the rows, the
cells of the instructions, the lines between them, and the brackets under the subroutines.
-/

namespace QuantumDiagram

structure Label where
  channel : Channel
  text : Text
  cell : Box
  bounds : Box

structure Element where
  channel : Channel
  column : Nat
  gate : Gate
  classicalControl : Bool
  glyph : Glyph
  angle : Option Float
  /-- The cell of the frame. -/
  cell : Box
  /-- What is drawn of it. -/
  bounds : Box

namespace Element

/-- The element of an instruction at one of its sites. -/
def ofInstruction (m : TextMetrics) (s : LayoutSettings) (cell : Box) (site : Site)
    (i : Instruction) : Element :=
  let glyph := i.glyphAt site.channel
  let size := glyph.minSize m s
  { channel := site.channel
    column := site.column
    gate := i.gate
    classicalControl := i.classicalControl
    glyph
    angle := i.angle
    cell
    bounds := cell.centered size.width size.height }

end Element

/-- What is drawn for a subroutine. -/
structure Bracket where
  name : Text
  caption : Text
  /-- Its columns in the row of captions. -/
  area : Box
  /-- The ends of the line over its columns. -/
  left : Point
  right : Point
  /-- The middle of the caption. -/
  anchor : Point
  /-- The height at which the guides at its two sides begin; they end at the line. -/
  guideTop : Int

namespace Bracket

/-- The two vertical guides, each from its upper to its lower end. -/
def guides (b : Bracket) : List (Point × Point) :=
  [(⟨b.left.x, b.guideTop⟩, b.left), (⟨b.right.x, b.guideTop⟩, b.right)]

end Bracket

/-- A surface that a circuit does not fit on. -/
structure Cramped where
  required : Size
  available : Size
deriving DecidableEq

namespace Cramped

/-- Compares the size that is needed with the size that there is. -/
def check (required available : Size) : Option Cramped :=
  if available.width ≤ 0 ∨ available.height ≤ 0 ∨ available.width < required.width ∨
      available.height < required.height then
    some ⟨required, available⟩
  else none

def sizeText (s : Size) : Text :=
  Text.join [Decimal.integer s.width, "x", Decimal.integer s.height]

def message (c : Cramped) : Text :=
  Text.join ["surface ", sizeText c.available, " is smaller than the ", sizeText c.required,
    " the circuit needs"]

end Cramped

/-- The place of everything that is drawn for a circuit. -/
structure Layout where
  /-- The widths of the label column and the columns of the circuit, and the heights of the visible
  rows and the row of captions, if there is one. -/
  frame : Frame
  /-- The visible rows. -/
  rows : List Channel
  labels : List Label
  elements : List Element
  segments : List Segment
  brackets : List Bracket
  doubleLineGap : Int
  borderWidth : Int
  /-- Set if the surface was too small. -/
  cramped : Option Cramped

namespace Layout

def bounds (l : Layout) : Box := l.frame.bounds

def hasLabelRow (l : Layout) : Bool := l.rows.length < l.frame.heights.length

def element? (l : Layout) (c : Channel) (column : Nat) : Option Element :=
  l.elements.find? fun e => e.channel = c && e.column = column

def segmentsOf (l : Layout) (kind : SegmentKind) : List Segment :=
  l.segments.filter (·.kind = kind)

end Layout

end QuantumDiagram
