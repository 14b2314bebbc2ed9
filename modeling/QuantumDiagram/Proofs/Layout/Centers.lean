import QuantumDiagram.Proofs.Layout.Placement

/-!
# Where lines meet elements

A connector goes down the middle of its column and a wire along the middle of its row, while an
element is put into the middle of its cell by a division of its own. Both round down, so that a line
meets an element at its middle or one unit behind it (`Band.MetAt`,
`Circuit.lines_meet_elements`). A node has an even size unless it fills its cell, and is always met
at its middle.
-/

namespace QuantumDiagram

/-! ## In one direction -/

namespace Band

/-- A stretch of the wanted length in the middle, made shorter where it does not fit. -/
def centered (b : Band) (wanted : Int) : Band :=
  let length := max 0 (min wanted b.length)
  ⟨b.start + (b.length - length).tdiv 2, length⟩

/-- A line at this place goes through the band, at its middle or one unit behind it. -/
structure MetAt (b : Band) (place : Int) : Prop where
  start_le : b.start ≤ place
  le_stop : place ≤ b.stop
  center_le : 0 ≤ place - b.center
  near : place - b.center ≤ 1

variable {b : Band}

theorem center_eq (h : 0 ≤ b.length) : b.center = b.start + b.length / 2 := by
  rw [center, Int.tdiv_eq_ediv_of_nonneg h]

/-- Two divisions place the middle of what is centred: that of the space left over, and that of its
own length. -/
theorem center_centered (h : 0 ≤ b.length) (wanted : Int) :
    let c := b.centered wanted
    0 ≤ c.length ∧ c.length ≤ b.length ∧ c.start = b.start + (b.length - c.length) / 2 ∧
      c.center = c.start + c.length / 2 := by
  intro c
  have hnonneg : 0 ≤ c.length := Int.le_max_left 0 _
  have hfits : c.length ≤ b.length := Int.max_le.2 ⟨h, Int.min_le_right _ _⟩
  refine ⟨hnonneg, hfits, ?_, center_eq hnonneg⟩
  rw [← Int.tdiv_eq_ediv_of_nonneg (by omega)]
  rfl

/-- **The middle of a cell meets what is centred in it**: an odd length in an even one has its
middle one unit before. -/
theorem metAt_center (h : 0 ≤ b.length) (wanted : Int) :
    (b.centered wanted).MetAt b.center := by
  have hmiddle := center_eq h
  obtain ⟨hnonneg, hfits, hstart, hcenter⟩ := center_centered h wanted
  constructor
  case start_le => omega
  case le_stop =>
    rw [stop]
    omega
  case center_le => omega
  case near => omega

/-- What has an even length is centred exactly, and so is what fills the cell or has no length. -/
theorem center_centered_even (h : 0 ≤ b.length) (half : Int) :
    (b.centered (2 * half)).center = b.center := by
  have hmiddle := center_eq h
  obtain ⟨-, -, hstart, hcenter⟩ := center_centered h (2 * half)
  have hlength : (b.centered (2 * half)).length = max 0 (min (2 * half) b.length) := rfl
  omega

end Band

/-- A node is twice as wide and as high as its radius. -/
theorem Glyph.minSize_of_isNode {g : Glyph} (h : g.isNode = true) (f : TextMetrics)
    (s : LayoutSettings) : ∃ radius, g.minSize f s = ⟨2 * radius, 2 * radius⟩ := by
  cases g with
  | dot => exact ⟨_, rfl⟩
  | target => exact ⟨_, rfl⟩
  | cross => exact ⟨_, rfl⟩
  | box => cases h
  | meter => cases h

namespace Scene

variable {s : Scene} {row : Row} {column : Column} {p : Segment}

/-! ## The places of lines -/

/-- All pieces of a wire are at the middle of its row. -/
theorem y_of_mem_wire {columns : List Column} (hp : p ∈ s.wire columns row) :
    p.start.y = row.band.center ∧ p.stop.y = row.band.center := by
  rw [wire] at hp
  obtain ⟨_, b, c, _, -, rfl⟩ := exists_of_mem_piecesBetween hp
  exact ⟨rfl, rfl⟩

/-- All pieces of the connectors in a column are at its middle. -/
theorem x_of_mem_connectorsIn {rows : List Row} (hp : p ∈ s.connectorsIn column rows) :
    p.start.x = column.band.center ∧ p.stop.x = column.band.center := by
  induction rows with
  | nil => cases hp
  | cons row below ih =>
    rw [connectorsIn_cons] at hp
    rcases List.mem_append.1 hp with hp | hp
    · obtain ⟨style, through, -, hp⟩ := mem_connector hp
      obtain ⟨_, b, c, _, -, rfl⟩ := exists_of_mem_piecesBetween hp
      exact ⟨rfl, rfl⟩
    · exact ih hp

end Scene

/-- `s.Meets row column e`: the lines of the row and of the column, each along its middle, meet the
element there at its own middle or one unit behind it, and exactly at its middle if it is a node. -/
structure Scene.Meets (s : Scene) (row : Row) (column : Column) (e : Element) : Prop where
  channel : row.channel = e.channel
  index : column.index = e.column
  wire : ∀ p ∈ s.wire s.columns row, p.start.y = row.band.center ∧ p.stop.y = row.band.center
  connectors : ∀ p ∈ s.connectorsIn column s.rows,
    p.start.x = column.band.center ∧ p.stop.x = column.band.center
  horizontal : e.bounds.horizontal.MetAt column.band.center
  vertical : e.bounds.vertical.MetAt row.band.center
  node : e.glyph.isNode = true → e.bounds.center = ⟨column.band.center, row.band.center⟩

/-- The lines of the layout are those of the rows and the columns of its scene, and each element is
met by the lines of its row and its column. -/
structure Layout.MetByLines (l : Layout) (s : Scene) : Prop where
  segments : l.segments = s.rows.flatMap (s.wire s.columns) ++
    s.columns.flatMap (s.connectorsIn · s.rows)
  elements : ∀ e ∈ l.elements, ∃ row ∈ s.rows, ∃ column ∈ s.columns, s.Meets row column e

namespace Circuit

theorem Division.metByLines {m : Circuit} {surface : Size} {f : TextMetrics} {s : LayoutSettings}
    (d : m.Division surface f s) : d.layout.MetByLines d.scene := by
  refine ⟨rfl, fun e he => ?_⟩
  obtain ⟨row, hrow, column, hcolumn, helement⟩ := Scene.mem_elements.1 he
  obtain ⟨hchannel, hindex⟩ := Scene.site_of_element? helement
  have hwidth : 0 ≤ column.band.length := Scene.nonneg_of_mem_columns hcolumn
  have hheight : 0 ≤ row.band.length := Scene.nonneg_of_mem_rows hrow
  obtain ⟨i, -, rfl⟩ := Scene.element?_eq_some.1 helement
  let glyph := i.glyphAt row.channel
  refine ⟨row, hrow, column, hcolumn, hchannel.symm, hindex.symm, fun _ => Scene.y_of_mem_wire,
    fun _ => Scene.x_of_mem_connectorsIn, Band.metAt_center hwidth (glyph.minSize f s).width,
    Band.metAt_center hheight (glyph.minSize f s).height, fun hnode => ?_⟩
  obtain ⟨radius, hsize⟩ := Glyph.minSize_of_isNode (g := glyph) hnode f s
  have hx := Band.center_centered_even hwidth radius
  have hy := Band.center_centered_even hheight radius
  show Point.mk (column.band.centered (glyph.minSize f s).width).center
    (row.band.centered (glyph.minSize f s).height).center = _
  rw [hsize, hx, hy]

/-- **The lines of a row and a column meet their element at its middle**, or one unit behind it, and
a node exactly at its middle, whatever the surface, the font and the settings are, and whether the
shares are computed exactly or in any arithmetic. -/
theorem lines_meet_elements (m : Circuit) (surface : Size) (f : TextMetrics) (s : LayoutSettings) :
    (m.layout surface f s).MetByLines (m.scene surface f s) ∧
      ∀ a : Arithmetic, (m.layoutBy a surface f s).MetByLines (m.sceneBy a surface f s) :=
  Division.forall_layout (fun l => l.MetByLines ⟨m, l.frame, f, s⟩) Division.metByLines

/-- On a surface that is too small, a target is as high as its row and is still met at its middle; a
box with an odd width is met one unit behind its middle. -/
theorem lines_meet_elements_squeezed :
    let source := "qubits 2\ncnot q0, q1\nh q0".toList
    let f := FontMetrics.toTextMetrics ⟨9, 21⟩
    ∃ m, ofProgram source = .ok m ∧
      let l := m.layout ⟨140, 36⟩ f {}
      let scene := m.scene ⟨140, 36⟩ f {}
      (∃ e ∈ l.elements, e.glyph = .target ∧ e.bounds = ⟨64, 21, 18, 15⟩ ∧
        ∃ row ∈ scene.rows, row.band = ⟨21, 15⟩ ∧ row.band.center = e.bounds.center.y) ∧
      ∃ e ∈ l.elements, e.column = 1 ∧ e.bounds.center.x = 114 ∧
        ∃ column ∈ scene.columns, column.index = 1 ∧ column.band.center = 115 ∧
          e.bounds.horizontal.MetAt column.band.center := by
  intro source f
  let place (m : Circuit) := m.layout ⟨140, 36⟩ f {}
  let scene (m : Circuit) := m.scene ⟨140, 36⟩ f {}
  have h : (ofProgram source).toOption.any (fun m =>
      (place m).elements.any (fun e => e.glyph = .target ∧ e.bounds = ⟨64, 21, 18, 15⟩ ∧
        e.channel = .qubit 1) &&
      (place m).elements.any (fun e => e.column = 1 ∧ e.bounds.center.x = 114) &&
      (scene m).rows.all (fun row => row.channel = .qubit 1 → row.band = ⟨21, 15⟩) &&
      (scene m).columns.all fun column => column.index = 1 → column.band.center = 115) = true := by
    decide +kernel
  obtain ⟨m, hm, h⟩ := (Option.any_eq_true _ _).1 h
  simp only [Bool.and_eq_true, List.any_eq_true, List.all_eq_true, decide_eq_true_eq] at h
  obtain ⟨⟨⟨⟨e, he, hglyph, hbounds, hchannel⟩, e', he', hindex, hcenter⟩, hrows⟩, hcolumns⟩ := h
  have hmeet := (lines_meet_elements m ⟨140, 36⟩ f {}).1.elements
  refine ⟨m, toOption_eq_some.1 hm, ⟨e, he, hglyph, hbounds, ?_⟩, e', he', hindex, hcenter, ?_⟩
  · obtain ⟨row, hrow, column, -, hmet⟩ := hmeet e he
    have hmiddle := hmet.node (by rw [hglyph]; rfl)
    exact ⟨row, hrow, hrows row hrow (hmet.channel.trans hchannel),
      (congrArg Point.y hmiddle).symm⟩
  · obtain ⟨_, -, column, hcolumn, hmet⟩ := hmeet e' he'
    have hone := hmet.index.trans hindex
    exact ⟨column, hcolumn, hone, hcolumns column hcolumn hone, hmet.horizontal⟩

end Circuit

end QuantumDiagram
