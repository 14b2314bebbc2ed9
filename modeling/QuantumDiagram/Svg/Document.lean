import QuantumDiagram.Geometry
import QuantumDiagram.Svg.Escape
import QuantumDiagram.Svg.Style

/-!
# Drawings as SVG documents

A document is what is drawn, in the order of painting: first the lines between the cells, then the
marks. Its text is a sequence of rows, each of one tag or one block; whether they are set on lines
of their own and indented is decided only when they are put together (`Document.text`).
-/

namespace QuantumDiagram.Svg

structure Settings where
  /-- The space around the drawing. -/
  padding : Int := 5
  /-- Whether the text begins with an XML declaration. -/
  standalone : Bool := true
  /-- Whether every row is set on a line of its own and indented. -/
  pretty : Bool := true
  /-- What all class names and identifiers begin with. -/
  classPrefix : Option Text := some "qc-".toList
  /-- Whether the area of the drawing is filled. -/
  background : Bool := true

namespace Settings

def className (s : Settings) (name : Text) : Text := s.classPrefix.getD [] ++ name

end Settings

/-- What can be drawn on top of the lines. -/
inductive Mark where
  | rect (bounds : Box) (kind : Text)
  | circle (center : Point) (radius : Int) (kind : Text)
  | line (start stop : Point) (kind : Text)
  | path (commands : Text) (kind : Text)
  /-- A text around its middle. -/
  | label (content : Text) (middle : Point)
  /-- A line with a head at each end. -/
  | arrow (start stop : Point)
  | openGroup (id : Option Text) (classes : List Text) (attributes : List (Text × Text))
  | closeGroup

structure Document where
  styles : List Style := []
  /-- How many times the head of arrows is defined. -/
  arrowHeads : Nat := 0
  lines : List Segment := []
  marks : List Mark := []

/-! ## Tags -/

/-- An attribute: a name and the text between its quotes. -/
abbrev Attribute := Text × Text

def attributesText (attributes : List Attribute) : Text :=
  attributes.flatMap fun (name, value) => Text.join [" ", name, "=\"", value, "\""]

def openTag (name : Text) (attributes : List Attribute) : Text :=
  Text.join ["<", name, attributesText attributes, ">"]

def emptyTag (name : Text) (attributes : List Attribute) : Text :=
  Text.join ["<", name, attributesText attributes, "/>"]

def closeTag (name : Text) : Text := Text.join ["</", name, ">"]

def endsOf (start stop : Point) : List Attribute :=
  [("x1", Decimal.integer start.x), ("y1", Decimal.integer start.y),
    ("x2", Decimal.integer stop.x), ("y2", Decimal.integer stop.y)]

/-! ## Rows -/

/-- A part of a document that is set on lines of its own. -/
structure Row where
  /-- How deep the row is indented when the document is set on lines. -/
  depth : Nat
  text : Text

/-- The rows of a block of texts between two tags. It is left out if it is empty. -/
def blockRows (name : Text) (contents : List Text) : List Row :=
  if contents.isEmpty then []
  else
    ⟨0, "  ".toList ++ openTag name []⟩ ::
      (contents.map (fun t => ⟨0, "    ".toList ++ t⟩) ++ [⟨0, "  ".toList ++ closeTag name⟩])

/-- The definition of the head of arrows; it is turned round at the start of a line. -/
def arrowHead (s : Settings) : Text :=
  Text.join [
    openTag "marker" [("id", s.className "arrow"), ("viewBox", "0 0 10 10"), ("refX", "8"),
      ("refY", "5"), ("markerWidth", "6"), ("markerHeight", "6"),
      ("orient", "auto-start-reverse")],
    "\n      ", emptyTag "path" [("d", "M0,0 L10,5 L0,10 Z"), ("fill", "context-stroke")],
    "\n    ", closeTag "marker"]

def lineClass : SegmentKind → Text
  | .wire => "wire"
  | .connector => "connector"

def lineRow (s : Settings) (l : Segment) : Row :=
  ⟨1, emptyTag "line" (("class", s.className (lineClass l.kind)) :: endsOf l.start l.stop)⟩

def markText (s : Settings) : Mark → Text
  | .rect b kind =>
    emptyTag "rect" [("class", s.className kind), ("x", Decimal.integer b.x),
      ("y", Decimal.integer b.y), ("width", Decimal.integer b.width),
      ("height", Decimal.integer b.height)]
  | .circle center radius kind =>
    emptyTag "circle" [("class", s.className kind), ("cx", Decimal.integer center.x),
      ("cy", Decimal.integer center.y), ("r", Decimal.integer radius)]
  | .line start stop kind =>
    emptyTag "line" (("class", s.className kind) :: endsOf start stop)
  | .path commands kind => emptyTag "path" [("class", s.className kind), ("d", commands)]
  | .label content middle =>
    Text.join [
      openTag "text" [("class", s.className "text"), ("x", Decimal.integer middle.x),
        ("y", Decimal.integer middle.y), ("text-anchor", "middle"),
        ("dominant-baseline", "middle")],
      escape content, closeTag "text"]
  | .arrow start stop =>
    let head := Text.join ["url(#", s.className "arrow", ")"]
    emptyTag "line" (("class".toList, s.className "bracket") :: (endsOf start stop ++
      [("marker-start".toList, head), ("marker-end", head)]))
  | .openGroup id classes attributes =>
    let idAttribute := match id with
      | some id => [("id".toList, s.className id)]
      | none => []
    let classAttribute :=
      if classes.isEmpty then [] else [("class".toList, Text.joinWith " " classes)]
    openTag "g" (idAttribute ++ classAttribute ++
      attributes.map fun (name, value) => (name, escape value))
  | .closeGroup => closeTag "g"

/-- The rows of marks, the first of which is indented by `depth`. A group's content is indented more
than the group. -/
def markRows (s : Settings) (depth : Nat) : List Mark → List Row
  | [] => []
  | m :: rest =>
    match m with
    | .openGroup .. => ⟨depth, markText s m⟩ :: markRows s (depth + 1) rest
    | .closeGroup => ⟨depth - 1, markText s m⟩ :: markRows s (depth - 1) rest
    | _ => ⟨depth, markText s m⟩ :: markRows s depth rest

namespace Document

/-- The tag that opens a document which shows the given area. -/
def rootTag (s : Settings) (area : Box) : Text :=
  let width := Decimal.integer (area.width + 2 * s.padding)
  let height := Decimal.integer (area.height + 2 * s.padding)
  openTag "svg" [("xmlns", "http://www.w3.org/2000/svg"),
    ("viewBox", Text.joinWith " " [Decimal.integer (area.x - s.padding),
      Decimal.integer (area.y - s.padding), width, height]),
    ("width", width), ("height", height)]

/-- The rows of a document, up to the tag that closes it. -/
def rows (d : Document) (s : Settings) (area : Box) : List Row :=
  (if s.standalone then [⟨0, "<?xml version=\"1.0\" encoding=\"UTF-8\"?>"⟩] else []) ++
    ⟨0, rootTag s area⟩ ::
      (blockRows "style" (d.styles.map (·.text (s.className []))) ++
        blockRows "defs" (List.replicate d.arrowHeads (arrowHead s)) ++
        d.lines.map (lineRow s) ++ markRows s 1 d.marks)

/-- A row as it is set, on a line of its own or not. -/
def setRow (pretty : Bool) (r : Row) : Text :=
  if pretty then Text.repeated (2 * r.depth) ' ' ++ r.text ++ ['\n'] else r.text

/-- The text of a document that shows the given area. -/
def text (d : Document) (s : Settings) (area : Box) : Text :=
  (d.rows s area).flatMap (setRow s.pretty) ++ closeTag "svg"

end Document

end QuantumDiagram.Svg
