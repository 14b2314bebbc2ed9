import QuantumDiagram.Circuit.Instruction

/-!
# Sizes of glyphs and texts

The sizes that a layout is computed with: those of texts, which the font decides, and those of the
glyphs. `minSize` is the least size at which a glyph is not clipped.
-/

namespace QuantumDiagram

/-- How large texts are. -/
structure TextMetrics where
  /-- The width of a text on one line. -/
  textWidth : Text → Int
  lineHeight : Int

/-- The measures of a font with characters of one width. -/
structure FontMetrics where
  /-- The width of a character. -/
  advance : Int
  lineHeight : Int
deriving DecidableEq, Repr

namespace FontMetrics

def textWidth (m : FontMetrics) (t : Text) : Int := m.advance * t.length

/-- The measures of a font of the given size: characters are three fifths as wide and lines five
quarters as high, both rounded up and kept within 32 bits. -/
def ofSize (size : Float) : FontMetrics where
  advance := (size * 0.6).ceil.toInt32.toInt
  lineHeight := (size * 1.25).ceil.toInt32.toInt

def toTextMetrics (m : FontMetrics) : TextMetrics := ⟨m.textWidth, m.lineHeight⟩

instance : Coe FontMetrics TextMetrics := ⟨toTextMetrics⟩

end FontMetrics

/-- The sizes of what is not text. -/
structure LayoutSettings where
  dotRadius : Int := 5
  targetRadius : Int := 9
  crossRadius : Int := 6
  /-- The border of a box, on each side. -/
  borderWidth : Int := 3
  /-- The distance of each line of a double line from its middle. -/
  doubleLineGap : Int := 2
  /-- The space below the caption of a subroutine. -/
  captionMargin : Int := 3
  /-- The height of the row of captions, in lines of text. -/
  labelRowLines : Int := 2
deriving DecidableEq, Repr

structure Size where
  width : Int
  height : Int
deriving DecidableEq, Repr

def boxSize (label : Text) (square : Bool) (m : TextMetrics) (s : LayoutSettings) : Size :=
  let width := m.textWidth label + 2 * s.borderWidth
  let height := m.lineHeight + 2 * s.borderWidth
  if square then ⟨max width height, max width height⟩ else ⟨width, height⟩

/-- The least size of a glyph. A meter is as large as a box around its gate's label. -/
def Glyph.minSize (g : Glyph) (m : TextMetrics) (s : LayoutSettings) : Size :=
  match g with
  | .dot => ⟨2 * s.dotRadius, 2 * s.dotRadius⟩
  | .target => ⟨2 * s.targetRadius, 2 * s.targetRadius⟩
  | .cross => ⟨2 * s.crossRadius, 2 * s.crossRadius⟩
  | .meter => boxSize Gate.measure.label true m s
  | .box label square => boxSize label square m s

end QuantumDiagram
