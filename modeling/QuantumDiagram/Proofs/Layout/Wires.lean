import Mathlib.Data.List.Forall2
import QuantumDiagram.Proofs.Layout.Passage

/-!
# The wires of a layout

Between its label and the right edge, the wire of a row passes the elements of the row, from one
column to the next. With them it fills all of this stretch (`Layout.IsWire`,
`Circuit.wires_layout`), however the surface is divided: also where the elements are squeezed, none
of them leaves its column.
-/

namespace QuantumDiagram

namespace Layout

/-- The cells that the wire of a row passes, each with what its element takes up of the row: those
of all columns, and what is behind an element in the last one. -/
def wireCells (l : Layout) (columns : Nat) (c : Channel) : List (Option Band) :=
  ((List.range columns).map fun k => (l.element? c k).map (·.bounds.horizontal)) ++
    if (l.element? c (columns - 1)).isSome then [none] else []

/-- The pieces are the wire of a row: they lead from its label through all of its cells to the right
edge, at one height, and are double lines just if the channel is classical. -/
def IsWire (l : Layout) (columns : Nat) (label : Label) (pieces : List Segment) : Prop :=
  ∃ y, Passes (.wire (.ofClassical label.channel.isClassical) · · y) label.bounds.right pieces
    (l.wireCells columns label.channel) l.bounds.right

/-- Each row of the layout has a label and one wire, and its elements are those in its columns, from
left to right. -/
structure Wired (l : Layout) (columns : Nat) : Prop where
  labels : l.labels.map (·.channel) = l.rows
  elements : ∀ c ∈ l.rows, l.elements.filter (·.channel = c) =
    (List.range columns).filterMap (l.element? c)
  wires : ∃ wires, l.segmentsOf .wire = wires.flatten ∧
    List.Forall₂ (l.IsWire columns) l.labels wires

end Layout

/-! ## Wires of a scene -/

namespace Scene

/-- A cell of a row, with what its element takes up of the row. -/
def wireCell (s : Scene) (row : Row) (column : Column) : Band × Option Band :=
  (column.band, (s.element? row column).map (·.bounds.horizontal))

/-- What is behind an element in the last column. -/
def wireEnd (s : Scene) (row : Row) (column : Column) : List (Band × Option Band) :=
  if (s.element? row column).isSome then [(column.band.last, none)] else []

theorem metByWire_eq (s : Scene) (row : Row) : s.metByWire row = met ∘ s.wireCell row := by
  funext column
  simp only [metByWire, Function.comp_apply, met, wireCell]
  cases s.element? row column <;> rfl

theorem endOfWire_eq (s : Scene) (row : Row) :
    s.endOfWire row = fun column => (s.wireEnd row column).map met := by
  funext column
  unfold endOfWire wireEnd
  split <;> simp [met, Band.last, Band.stop]

/-- The cells that the wire of a row passes on its way through the columns. -/
def wireCells (s : Scene) (columns : List Column) (row : Row) : List (Band × Option Band) :=
  columns.map (s.wireCell row) ++ columns.getLast?.toList.flatMap (s.wireEnd row)

theorem wire_eq (s : Scene) (columns : List Column) (row : Row) : s.wire columns row =
    piecesBetween (.wire (.ofClassical row.channel.isClassical) · · row.band.center)
      ((s.label row).bounds.horizontal :: (s.wireCells columns row).map met) := by
  simp [wire, wireCells, metByWire_eq, endOfWire_eq, List.map_flatMap]

section Wire

variable {s : Scene} {columns : List Column} {row : Row} {start stop : Int}

theorem mem_wireEnd {column : Column} {cell : Band × Option Band}
    (h : cell ∈ s.wireEnd row column) : cell = (column.band.last, none) := by
  unfold wireEnd at h
  split at h
  · exact List.mem_singleton.1 h
  · cases h

theorem laid_wireCells (h : Laid start (columns.map Column.band) stop) :
    Laid start ((s.wireCells columns row).map Prod.fst) stop := by
  have hbands : (columns.map (s.wireCell row)).map Prod.fst = columns.map Column.band := by
    rw [List.map_map]
    rfl
  rw [wireCells, List.map_append, hbands]
  refine laid_append.2 ⟨stop, h, ?_⟩
  cases hlast : columns.getLast? with
  | none => rfl
  | some last =>
    obtain ⟨before, rfl⟩ := List.getLast?_eq_some_iff.1 hlast
    rw [List.map_append] at h
    simp only [Option.toList_some, List.flatMap_cons, List.flatMap_nil, wireEnd]
    split
    · refine ⟨h.stop_eq, Int.le_refl 0, ?_⟩
      rw [Band.stop_last, h.stop_eq]
      rfl
    · rfl

theorem inside_of_mem_wireCells (hlaid : Laid start (columns.map Column.band) stop)
    (hrow : 0 ≤ row.band.length) :
    ∀ cell ∈ s.wireCells columns row, ∀ b ∈ cell.2, b.Inside cell.1 := by
  intro cell hcell b hb
  rcases List.mem_append.1 hcell with hcell | hcell
  · obtain ⟨column, hcolumn, rfl⟩ := List.mem_map.1 hcell
    obtain ⟨e, he, rfl⟩ := Option.map_eq_some_iff.1 hb
    have hlength := (hlaid.bounds column.band (List.mem_map_of_mem hcolumn)).2.1
    exact (inside_of_element? he hlength hrow).1
  · obtain ⟨column, -, hcell⟩ := List.mem_flatMap.1 hcell
    rw [mem_wireEnd hcell] at hb
    cases hb

/-- The last thing that a wire meets is the end of a cell. -/
theorem getLast?_wireCells (s : Scene) (row : Row) (h : columns ≠ []) :
    ∃ last, (s.wireCells columns row).getLast? = some (last, none) := by
  obtain ⟨last, hlast⟩ := Option.isSome_iff_exists.1 (List.getLast?_isSome.2 h)
  simp only [wireCells, hlast, Option.toList_some, List.flatMap_cons, List.flatMap_nil,
    List.append_nil, wireEnd]
  cases helement : s.element? row last with
  | none => exact ⟨last.band, by simp [hlast, wireCell, helement]⟩
  | some e => exact ⟨last.band.last, by simp⟩

/-- The wire of a row leads from its label through all columns to the end of the last one. -/
theorem passes_wire (hcolumns : columns ≠ [])
    (hlaid : Laid start (columns.map Column.band) stop) (hrow : 0 ≤ row.band.length)
    (hlabel : (s.label row).bounds.right ≤ start) :
    Passes (.wire (.ofClassical row.channel.isClassical) · · row.band.center)
      (s.label row).bounds.right (s.wire columns row)
      ((s.wireCells columns row).map Prod.snd) stop := by
  have hfirst : (s.label row).bounds.horizontal.stop ≤ start := hlabel
  obtain ⟨last, hlast⟩ := getLast?_wireCells s row hcolumns
  rw [wire_eq]
  exact passes_to_end _ (laid_wireCells hlaid) (inside_of_mem_wireCells hlaid hrow) hfirst hlast

end Wire

end Scene

section Layout

variable {m : Circuit} {surface : Size} {f : TextMetrics} {s : LayoutSettings}
  {d : m.Division surface f s} {row : Scene.Row}

theorem Scene.getLast?_columns (hm : 0 < m.columns) (d : m.Division surface f s) : ∃ last,
    d.scene.columns.getLast? = some last ∧ last.index = m.columns - 1 := by
  have hindex : (d.scene.columns.map Scene.Column.index).getLast? = some (m.columns - 1) := by
    rw [Scene.map_index_columns, List.getLast?_range, if_neg (Nat.ne_of_gt hm)]
  rw [List.getLast?_map] at hindex
  exact Option.map_eq_some_iff.1 hindex

/-- The layout knows the cells that the wire of a row passes. -/
theorem Layout.wireCells_eq (hm : 0 < m.columns) (hrow : row ∈ d.scene.rows) :
    d.layout.wireCells m.columns row.channel =
      (d.scene.wireCells d.scene.columns row).map Prod.snd := by
  obtain ⟨last, hlast, hindex⟩ := Scene.getLast?_columns hm d
  have helement := Layout.element?_eq hrow (List.mem_of_getLast? hlast)
  rw [hindex] at helement
  have hcells := congrArg (List.map (Option.map (·.bounds.horizontal))) (Layout.map_element? hrow)
  simp only [List.map_map] at hcells
  rw [Layout.wireCells, Scene.wireCells, hlast, helement, List.map_append, List.map_map]
  congr 1
  · simp only [Option.toList_some, List.flatMap_cons, List.flatMap_nil, Scene.wireEnd]
    split <;> rfl

theorem Scene.inside_label (hrow : row ∈ d.scene.rows) :
    (d.scene.label row).bounds.horizontal.Inside d.scene.labelBand ∧
      (d.scene.label row).bounds.vertical.Inside row.band :=
  Box.inside_centered (laid_columns d).1 (nonneg_of_mem_rows hrow) _ _

end Layout

namespace Circuit

theorem Division.wired {m : Circuit} {surface : Size} {f : TextMetrics} {s : LayoutSettings}
    (d : m.Division surface f s) (hm : 0 < m.columns) : d.layout.Wired m.columns := by
  have hrows : d.scene.rows.map Scene.Row.channel = d.layout.rows := Scene.map_channel_rows d
  constructor
  case labels => exact Layout.map_channel_labels d
  case elements =>
    intro c hc
    rw [← hrows] at hc
    obtain ⟨row, hrow, rfl⟩ := List.mem_map.1 hc
    exact Layout.filter_elements hrow
  case wires =>
    refine ⟨d.scene.rows.map (d.scene.wire d.scene.columns), ?_, ?_⟩
    · rw [Layout.segmentsOf_wire, ← List.flatMap_def]
      rfl
    show List.Forall₂ _ (d.scene.rows.map d.scene.label) _
    rw [List.forall₂_map_left_iff, List.forall₂_map_right_iff, List.forall₂_same]
    intro row hrow
    obtain ⟨last, hlast, -⟩ := Scene.getLast?_columns hm d
    have hcolumns : d.scene.columns ≠ [] := List.ne_nil_of_mem (List.mem_of_getLast? hlast)
    refine ⟨row.band.center, ?_⟩
    show Passes _ _ _ (d.layout.wireCells m.columns row.channel) _
    rw [Layout.wireCells_eq hm hrow]
    exact Scene.passes_wire hcolumns (Scene.laid_columns d).2 (Scene.nonneg_of_mem_rows hrow)
      (Scene.inside_label hrow).1.stop

/-- **The wire of a row fills it between its elements**, whether the shares are computed exactly or
in any arithmetic. -/
theorem wires_layout {m : Circuit} (hm : 0 < m.columns) (surface : Size) (f : TextMetrics)
    (s : LayoutSettings) :
    (m.layout surface f s).Wired m.columns ∧
      ∀ a : Arithmetic, (m.layoutBy a surface f s).Wired m.columns :=
  Division.forall_layout (·.Wired m.columns) fun d => d.wired hm

/-- On a surface that is too small, the elements of the qubit's row take up all of their columns,
and there is no element behind the meter's bit. -/
theorem wires_layout_squeezed :
    let source := "qubits 1\nmeasure\nx q0".toList
    let f := FontMetrics.toTextMetrics ⟨10, 20⟩
    ∃ m, ofProgram source = .ok m ∧ 0 < m.columns ∧
      (m.layout ⟨70, 30⟩ f {}).segmentsOf .wire = [.wire .single 32 32 9, .wire .single 50 50 9,
        .wire .single 68 68 9, .wire .double 26 36 24, .wire .double 46 68 24] ∧
      (m.layout ⟨70, 30⟩ f {}).Wired m.columns ∧
      ∀ a : Arithmetic, (m.layoutBy a ⟨70, 30⟩ f {}).Wired m.columns := by
  intro source f
  have h : (ofProgram source).toOption.map (fun m =>
      (m.columns, (m.layout ⟨70, 30⟩ f {}).segmentsOf .wire)) =
        some (2, [.wire .single 32 32 9, .wire .single 50 50 9, .wire .single 68 68 9,
          .wire .double 26 36 24, .wire .double 46 68 24]) := by
    decide +kernel
  obtain ⟨m, hm, hlayout⟩ := Option.map_eq_some_iff.1 h
  obtain ⟨hcolumns, hsegments⟩ := Prod.mk.inj hlayout
  have hpositive : 0 < m.columns := by omega
  exact ⟨m, toOption_eq_some.1 hm, hpositive, hsegments, wires_layout hpositive _ f {}⟩

end Circuit

end QuantumDiagram
