/-!
# Points, bands, boxes and lines

All coordinates are whole drawing units, with the origin at the top left; `y` grows downwards.
Divisions round toward zero. The main statement is that a box centred in another one of non-negative
size lies inside it (`Box.contains_centered`).
-/

namespace QuantumDiagram

structure Point where
  x : Int
  y : Int
deriving DecidableEq, Repr

/-- A stretch of an axis. -/
structure Band where
  start : Int
  length : Int
deriving DecidableEq, Repr

namespace Band

def stop (b : Band) : Int := b.start + b.length

def center (b : Band) : Int := b.start + b.length.tdiv 2

/-- Where a band ends, as a band without length. -/
def last (b : Band) : Band := ⟨b.stop, 0⟩

@[simp] theorem start_last (b : Band) : b.last.start = b.stop := rfl

@[simp] theorem stop_last (b : Band) : b.last.stop = b.stop := Int.add_zero _

end Band

structure Box where
  x : Int
  y : Int
  width : Int
  height : Int
deriving DecidableEq, Repr

namespace Box

/-- The box that extends over one band in each direction. -/
def ofBands (horizontal vertical : Band) : Box :=
  ⟨horizontal.start, vertical.start, horizontal.length, vertical.length⟩

/-- What the box extends over from left to right. -/
def horizontal (b : Box) : Band := ⟨b.x, b.width⟩

/-- What the box extends over from top to bottom. -/
def vertical (b : Box) : Band := ⟨b.y, b.height⟩

def right (b : Box) : Int := b.x + b.width

def bottom (b : Box) : Int := b.y + b.height

def center (b : Box) : Point := ⟨b.x + b.width.tdiv 2, b.y + b.height.tdiv 2⟩

/-- Whether no part of `inner` is outside. -/
def contains (outer inner : Box) : Bool :=
  outer.x ≤ inner.x && outer.y ≤ inner.y && inner.right ≤ outer.right && inner.bottom ≤ outer.bottom

/-- A box of the wanted size in the middle, made smaller where it does not fit. -/
def centered (b : Box) (wantedWidth wantedHeight : Int) : Box :=
  let width := max 0 (min wantedWidth b.width)
  let height := max 0 (min wantedHeight b.height)
  ⟨b.x + (b.width - width).tdiv 2, b.y + (b.height - height).tdiv 2, width, height⟩

theorem contains_iff {outer inner : Box} :
    outer.contains inner = true ↔ outer.x ≤ inner.x ∧ outer.y ≤ inner.y ∧
      inner.right ≤ outer.right ∧ inner.bottom ≤ outer.bottom := by
  simp [contains, and_assoc]

theorem contains_centered {b : Box} (hw : 0 ≤ b.width) (hh : 0 ≤ b.height) (w h : Int) :
    b.contains (b.centered w h) = true := by
  rw [contains_iff]
  simp only [centered, right, bottom]
  rw [Int.tdiv_eq_ediv_of_nonneg (by omega), Int.tdiv_eq_ediv_of_nonneg (by omega)]
  omega

end Box

/-- Whether a line is drawn once, or twice for a classical channel. -/
inductive LineStyle where
  | single
  | double
deriving DecidableEq, Repr

/-- Classical lines are double. -/
def LineStyle.ofClassical (classical : Bool) : LineStyle := if classical then double else single

/-- What a straight line stands for. -/
inductive SegmentKind where
  /-- A piece of the horizontal line of a channel. -/
  | wire
  /-- A piece of the vertical line between the cells of an instruction. -/
  | connector
deriving DecidableEq, Repr

structure Segment where
  kind : SegmentKind
  style : LineStyle
  start : Point
  stop : Point
deriving DecidableEq, Repr

namespace Segment

/-- The horizontal piece at height `y` from `x₁` to `x₂`. -/
def wire (style : LineStyle) (x₁ x₂ y : Int) : Segment := ⟨.wire, style, ⟨x₁, y⟩, ⟨x₂, y⟩⟩

/-- The vertical piece at `x` from `y₁` to `y₂`. -/
def connector (style : LineStyle) (x y₁ y₂ : Int) : Segment := ⟨.connector, style, ⟨x, y₁⟩, ⟨x, y₂⟩⟩

end Segment

end QuantumDiagram
