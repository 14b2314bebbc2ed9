import QuantumDiagram.Layout
import QuantumDiagram.Svg.Document

/-!
# Drawing a layout

The lines of a layout are painted first, each double line as two; on top of them come the
background, the labels, the elements and the brackets, in this order.
-/

namespace QuantumDiagram

namespace Segment

def shifted (s : Segment) (offset : Int) : Segment :=
  match s.kind with
  | .wire => { s with start.y := s.start.y + offset, stop.y := s.stop.y + offset }
  | .connector => { s with start.x := s.start.x + offset, stop.x := s.stop.x + offset }

/-- The lines that a segment is drawn as: a double one at a distance of `gap` to both sides. -/
def strokes (gap : Int) (s : Segment) : List Segment :=
  match s.style with
  | .single => [s]
  | .double => [s.shifted (-gap), s.shifted gap]

end Segment

namespace Svg

/-- The number with at most 53 binary digits nearest to `n`; a tie goes to the even last digit. -/
def roundToPrecision (n : Nat) : Nat :=
  let unit := Nat.pow 2 (n.log2 + 1 - 53)
  let below := n / unit
  let twice := 2 * (n % unit)
  (if unit < twice ∨ twice = unit ∧ below % 2 = 1 then below + 1 else below) * unit

/-- The radius of the arc of a meter in a box of the given width: seven tenths of half the width,
where the factor and the product are rounded to 53 binary digits, without the fraction. -/
def meterRadius (width : Int) : Int :=
  roundToPrecision (width.toNat * 6305039478318694) / Nat.pow 2 54

/-- A half circle over its middle, and a needle from there to its tip. -/
structure Meter where
  middle : Point
  radius : Int
  tip : Point

namespace Meter

def inBox (b : Box) : Meter where
  middle := ⟨b.x + b.width.tdiv 2, b.y + (3 * b.height).tdiv 5⟩
  radius := meterRadius b.width
  tip := ⟨b.x + (17 * b.width).tdiv 20, b.y + (3 * b.height).tdiv 20⟩

/-- The commands that draw the half circle, from left to right. -/
def arc (m : Meter) : Text :=
  let point (x : Int) : Text := Text.join [Decimal.integer x, " ", Decimal.integer m.middle.y]
  Text.join ["M", point (m.middle.x - m.radius), " A", Decimal.integer m.radius, " ",
    Decimal.integer m.radius, " 0 0 1 ", point (m.middle.x + m.radius)]

def marks (m : Meter) : List Mark := [.path m.arc "meter", .line m.middle m.tip "meter"]

end Meter

def glyphMarks (g : Glyph) (b : Box) : List Mark :=
  let center := b.center
  let radius := (min b.width b.height).tdiv 2
  match g with
  | .box label _ => [.rect b "box", .label label center]
  | .meter => .rect b "box" :: (Meter.inBox b).marks
  | .dot => [.circle center radius "dot"]
  | .target =>
    [.circle center radius "target",
      .line ⟨center.x - radius, center.y⟩ ⟨center.x + radius, center.y⟩ "target",
      .line ⟨center.x, center.y - radius⟩ ⟨center.x, center.y + radius⟩ "target"]
  | .cross =>
    [.line ⟨b.x, b.y⟩ ⟨b.right, b.bottom⟩ "cross", .line ⟨b.x, b.bottom⟩ ⟨b.right, b.y⟩ "cross"]

/-- The identifier of an element, without what all identifiers begin with. -/
def elementId (e : Element) : Text := e.channel.text ++ '-' :: Decimal.natural e.column

/-- The keyword form of an element's instruction. -/
def elementName (e : Element) : Text :=
  if e.classicalControl then e.gate.controlledName else e.gate.name

/-- The marks of an element: a group that tells the gate and its angle. -/
def elementMarks (s : Settings) (e : Element) : List Mark :=
  let angle : List Attribute := match e.angle with
    | some a => [("data-angle", Decimal.floating a)]
    | none => []
  .openGroup (some (elementId e)) [s.className "gate", s.className (elementName e)]
      (("data-gate".toList, elementName e) :: angle) ::
    (glyphMarks e.glyph e.bounds ++ [.closeGroup])

def bracketMarks (s : Settings) (b : Bracket) : List Mark :=
  .openGroup none [s.className "subroutine"] [("data-name", b.name)] ::
    .arrow b.left b.right :: .label b.caption b.anchor ::
      (b.guides.map (fun (top, bottom) => .line top bottom "guide") ++ [.closeGroup])

end Svg

namespace Layout

def draw (l : Layout) (s : Svg.Settings) (stylesheet : Stylesheet) : Svg.Document where
  styles := [⟨stylesheet, l.borderWidth⟩]
  arrowHeads := if l.brackets.isEmpty then 0 else 1
  lines := l.segments.flatMap (Segment.strokes l.doubleLineGap)
  marks := (if s.background then [.rect l.bounds "background"] else []) ++
    (l.labels.map fun label => .label label.text label.bounds.center) ++
    l.elements.flatMap (Svg.elementMarks s) ++ l.brackets.flatMap (Svg.bracketMarks s)

/-- The text of the document that shows a layout. -/
def svg (l : Layout) (s : Svg.Settings) (stylesheet : Stylesheet) : Text :=
  (l.draw s stylesheet).text s l.bounds

end Layout

end QuantumDiagram
