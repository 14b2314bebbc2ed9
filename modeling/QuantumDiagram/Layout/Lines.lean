import QuantumDiagram.Layout.Basic

/-!
# Wires and connectors

Every visible row has a wire through all columns, and every instruction with several cells has a
connector down its column, from its topmost to its lowest participant. Both are made of the pieces
between what they meet on their way (`piecesBetween`). A scene is what they are read off: the
circuit with the place of its rows and columns.
-/

namespace QuantumDiagram

/-- A circuit in a frame, with what decides the size of its elements. -/
structure Scene where
  circuit : Circuit
  frame : Frame
  metrics : TextMetrics
  settings : LayoutSettings

namespace Scene

structure Row where
  channel : Channel
  band : Band

structure Column where
  index : Nat
  band : Band

def rows (s : Scene) : List Row := List.zipWith Row.mk s.circuit.visibleRows s.frame.rows

/-- The place of the column of labels, the first one of the frame. -/
def labelBand (s : Scene) : Band := ⟨0, s.frame.widths.headD 0⟩

/-- The columns of the circuit from left to right; they are behind the column of labels. -/
def columns (s : Scene) : List Column :=
  List.zipWith Column.mk (List.range s.circuit.columns) s.frame.columns.tail

/-- The place of the row of captions below the visible rows, if there is one. -/
def captionBand? (s : Scene) : Option Band := s.frame.rows[s.circuit.visibleRows.length]?

def label (s : Scene) (row : Row) : Label :=
  let text := s.circuit.label row.channel
  let cell := Box.ofBands s.labelBand row.band
  { channel := row.channel
    text
    cell
    bounds := cell.centered (s.metrics.textWidth text) s.metrics.lineHeight }

/-- The element in a column of a row, if there is one. -/
def element? (s : Scene) (row : Row) (column : Column) : Option Element :=
  (s.circuit.grid.get? row.channel column.index).map
    (.ofInstruction s.metrics s.settings (.ofBands column.band row.band)
      ⟨row.channel, column.index⟩)

def labels (s : Scene) : List Label := s.rows.map s.label

def elements (s : Scene) : List Element :=
  let columns := s.columns
  s.rows.flatMap fun row => columns.filterMap (s.element? row)

/-- The pieces of a line between what it meets on its way: each goes from the end of one band to the
start of the next one. -/
def piecesBetween (piece : Int → Int → Segment) (met : List Band) : List Segment :=
  List.zipWith (fun before after => piece before.stop after.start) met met.tail

@[simp] theorem piecesBetween_singleton (piece : Int → Int → Segment) (b : Band) :
    piecesBetween piece [b] = [] := rfl

@[simp] theorem piecesBetween_cons_cons (piece : Int → Int → Segment) (b c : Band)
    (met : List Band) :
    piecesBetween piece (b :: c :: met) = piece b.stop c.start :: piecesBetween piece (c :: met) :=
  rfl

/-! ## Wires -/

/-- What the wire of a row meets in a column: the element there, else the end of the column. -/
def metByWire (s : Scene) (row : Row) (column : Column) : Band :=
  match s.element? row column with
  | some e => e.bounds.horizontal
  | none => column.band.last

/-- What the wire of a row meets behind an element in the last column: the end of the column. -/
def endOfWire (s : Scene) (row : Row) (column : Column) : List Band :=
  if (s.element? row column).isSome then [column.band.last] else []

/-- The wire of a row, from its label through the given columns. -/
def wire (s : Scene) (columns : List Column) (row : Row) : List Segment :=
  let style := LineStyle.ofClassical row.channel.isClassical
  let met := (s.label row).bounds.horizontal :: (columns.map (s.metByWire row) ++
    columns.getLast?.toList.flatMap (s.endOfWire row))
  piecesBetween (.wire style · · row.band.center) met

def wires (s : Scene) : List Segment := s.rows.flatMap (s.wire s.columns)

/-! ## Connectors -/

/-- What a connector in a column meets in a row: the element there, else the end of the row. -/
def metByConnector (s : Scene) (column : Column) (row : Row) : Band :=
  match s.element? row column with
  | some e => e.bounds.vertical
  | none => row.band.last

/-- The connector that begins in a row, through the rows below; only the topmost cell of an
instruction with several cells has one. -/
def connector (s : Scene) (column : Column) (row : Row) (below : List Row) : List Segment :=
  match s.circuit.grid.get? row.channel column.index with
  | none => []
  | some i =>
    if i.role = .singleChannel ∨ i.participants.first? ≠ some row.channel then []
    else
      match i.participants.last? with
      | none => []
      | some lowest =>
        let through := below.takeWhile fun r => compare r.channel lowest ≠ .gt
        piecesBetween (.connector (.ofClassical i.isClassicalLink) column.band.center)
          ((row :: through).map (s.metByConnector column))

/-- The connectors in a column that begin in the given rows. -/
def connectorsIn (s : Scene) (column : Column) (rows : List Row) : List Segment :=
  (rows.foldr (fun row (found, below) => (s.connector column row below ++ found, row :: below))
    ([], [])).1

@[simp] theorem connectorsIn_nil (s : Scene) (column : Column) : s.connectorsIn column [] = [] :=
  rfl

@[simp] theorem connectorsIn_cons (s : Scene) (column : Column) (row : Row) (below : List Row) :
    s.connectorsIn column (row :: below) =
      s.connector column row below ++ s.connectorsIn column below := by
  have rest (rows : List Row) :
      (rows.foldr (fun row (found, below) =>
        (s.connector column row below ++ found, row :: below)) ([], [])).2 = rows := by
    induction rows with
    | nil => rfl
    | cons r rows ih => simp [ih]
  simp [connectorsIn, rest]

/-- The connectors by column and then by topmost row. -/
def connectors (s : Scene) : List Segment :=
  let rows := s.rows
  s.columns.flatMap (s.connectorsIn · rows)

end Scene

end QuantumDiagram
