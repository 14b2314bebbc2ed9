import QuantumDiagram.Proofs.Layout.Connectors
import QuantumDiagram.Proofs.Layout.ByPosition
import QuantumDiagram.Proofs.Layout.Wires

/-!
# Nothing overlaps, and nothing is outside

On every surface, also on one without any room, the cells of a layout lie beside each other, labels
and elements stay inside their cells, and lines begin and end inside the drawing (`Layout.Placed`,
`Circuit.placed_layout`). All of it follows from the bands of the frame: rows and columns are laid
side by side, and what is drawn in a cell is inside its row and its column.
-/

namespace QuantumDiagram

/-! ## Boxes beside each other -/

namespace Box

/-- One of the boxes is wholly on one side of the other, so that they have no inner point in
common. -/
def Apart (b c : Box) : Prop :=
  b.right ≤ c.x ∨ c.right ≤ b.x ∨ b.bottom ≤ c.y ∨ c.bottom ≤ b.y

/-- The point is in the box or on its edge. -/
def Holds (b : Box) (p : Point) : Prop :=
  b.x ≤ p.x ∧ p.x ≤ b.right ∧ b.y ≤ p.y ∧ p.y ≤ b.bottom

theorem contains_of_inside {outer inner : Box} (hh : inner.horizontal.Inside outer.horizontal)
    (hv : inner.vertical.Inside outer.vertical) : outer.contains inner = true :=
  contains_iff.2 ⟨hh.start, hv.start, hh.stop, hv.stop⟩

end Box

theorem Band.Inside.trans {a b c : Band} (h : a.Inside b) (h' : b.Inside c) : a.Inside c where
  start := Int.le_trans h'.start h.start
  length := h.length
  stop := Int.le_trans h.stop h'.stop

theorem Band.center_mem {b : Band} (h : 0 ≤ b.length) : b.start ≤ b.center ∧ b.center ≤ b.stop := by
  simp only [center, stop]
  rw [Int.tdiv_eq_ediv_of_nonneg h]
  omega

/-- Of bands side by side, one comes before the other. -/
theorem Laid.before_or_behind {start stop : Int} {bands : List Band} (h : Laid start bands stop)
    {i j : Nat} {b c : Band} (hb : bands[i]? = some b) (hc : bands[j]? = some c) (hne : i ≠ j) :
    b.stop ≤ c.start ∨ c.stop ≤ b.start := by
  rcases Nat.lt_or_gt_of_ne hne with hlt | hlt
  · exact .inl (h.before hb hc hlt)
  · exact .inr (h.before hc hb hlt)

namespace Frame

theorem cell?_eq_some {frame : Frame} {k r : Nat} {b : Box} : frame.cell? k r = some b ↔
    ∃ horizontal vertical, frame.columns[k]? = some horizontal ∧ frame.rows[r]? = some vertical ∧
      .ofBands horizontal vertical = b := by
  simp only [cell?, Option.bind_eq_bind, Option.bind_eq_some_iff]
  constructor
  · rintro ⟨horizontal, hh, vertical, hv, hb⟩
    exact ⟨horizontal, vertical, hh, hv, Option.some.inj hb⟩
  · rintro ⟨horizontal, vertical, hh, hv, rfl⟩
    exact ⟨horizontal, hh, vertical, hv, rfl⟩

/-- Where columns and rows lie side by side, so do the cells. -/
theorem apart_cells {frame : Frame} {right bottom : Int} (hcolumns : Laid 0 frame.columns right)
    (hrows : Laid 0 frame.rows bottom) {k r k' r' : Nat} {b b' : Box}
    (hb : frame.cell? k r = some b) (hb' : frame.cell? k' r' = some b')
    (hne : (k, r) ≠ (k', r')) : b.Apart b' := by
  obtain ⟨horizontal, vertical, hh, hv, rfl⟩ := cell?_eq_some.1 hb
  obtain ⟨horizontal', vertical', hh', hv', rfl⟩ := cell?_eq_some.1 hb'
  by_cases hk : k = k'
  · have hr : r ≠ r' := fun hr => hne (by rw [hk, hr])
    rcases hrows.before_or_behind hv hv' hr with h | h
    · exact .inr (.inr (.inl h))
    · exact .inr (.inr (.inr h))
  · rcases hcolumns.before_or_behind hh hh' hk with h | h
    · exact .inl h
    · exact .inr (.inl h)

end Frame

/-! ## The bands of labels, rows and columns -/

namespace Scene

section Bands

variable {m : Circuit} {surface : Size} {f : TextMetrics} {s : LayoutSettings}
  {d : m.Division surface f s} {row : Row} {column : Column} {e : Element}

/-- All columns of the circuit are behind the column of labels. -/
theorem labelBand_before (h : column ∈ d.scene.columns) :
    d.scene.labelBand.stop ≤ column.band.start :=
  ((laid_columns d).2.bounds _ (List.mem_map_of_mem h)).1

theorem inside_labelBand (d : m.Division surface f s) :
    d.scene.labelBand.Inside d.scene.frame.bounds.horizontal := by
  obtain ⟨hlength, hlaid⟩ := laid_columns d
  exact ⟨Int.le_refl 0, hlength, hlaid.le⟩

theorem inside_of_mem_columns (h : column ∈ d.scene.columns) :
    column.band.Inside d.scene.frame.bounds.horizontal := by
  have hlabel := inside_labelBand d
  have hbounds := (laid_columns d).2.bounds _ (List.mem_map_of_mem h)
  have hleft := Int.le_trans hlabel.start (Band.start_le_stop hlabel.length)
  exact ⟨Int.le_trans hleft hbounds.1, hbounds.2.1, hbounds.2.2⟩

theorem inside_of_mem_rows (h : row ∈ d.scene.rows) :
    row.band.Inside d.scene.frame.bounds.vertical := by
  obtain ⟨r, hr⟩ := List.mem_iff_getElem?.1 h
  have hband : row.band ∈ d.scene.frame.rows := List.mem_of_getElem? (getElem?_rows.1 hr).2
  have hbounds := d.laid_rows.bounds _ hband
  exact ⟨hbounds.1, hbounds.2.1, hbounds.2.2⟩

theorem pairwise_rows (d : m.Division surface f s) :
    d.scene.rows.Pairwise fun r r' => r.band.stop ≤ r'.band.start := by
  obtain ⟨stop, hlaid⟩ := exists_laid_rows d
  exact List.pairwise_map.1 hlaid.pairwise

theorem pairwise_columns (d : m.Division surface f s) :
    d.scene.columns.Pairwise fun c c' => c.band.stop ≤ c'.band.start :=
  List.pairwise_map.1 (laid_columns d).2.pairwise

theorem inside_element (hrow : row ∈ d.scene.rows) (hcolumn : column ∈ d.scene.columns)
    (he : d.scene.element? row column = some e) :
    e.bounds.horizontal.Inside column.band ∧ e.bounds.vertical.Inside row.band :=
  inside_of_element? he (nonneg_of_mem_columns hcolumn) (nonneg_of_mem_rows hrow)

end Bands

/-! ## Boxes of labels and elements -/

section Boxes

variable {m : Circuit} {surface : Size} {f : TextMetrics} {s : LayoutSettings}
  (d : m.Division surface f s)

theorem pairwise_labels :
    d.scene.labels.Pairwise fun l l' => l.bounds.Apart l'.bounds := by
  refine List.pairwise_map.2 ((pairwise_rows d).imp_of_mem ?_)
  intro row row' hrow hrow' hbefore
  have hstop := (inside_label hrow).2.stop
  have hstart := (inside_label hrow').2.start
  exact .inr (.inr (.inl (Int.le_trans hstop (Int.le_trans hbefore hstart))))

theorem pairwise_elements :
    d.scene.elements.Pairwise fun e e' => e.bounds.Apart e'.bounds := by
  refine List.pairwise_flatMap.2 ⟨fun row hrow => ?_, ?_⟩
  · -- In one row, the columns keep the elements apart.
    refine List.pairwise_filterMap.2 ((pairwise_columns d).imp_of_mem ?_)
    intro column column' hcolumn hcolumn' hbefore e he e' he'
    have hstop := (inside_element hrow hcolumn he).1.stop
    have hstart := (inside_element hrow hcolumn' he').1.start
    exact .inl (Int.le_trans hstop (Int.le_trans hbefore hstart))
  · refine (pairwise_rows d).imp_of_mem ?_
    intro row row' hrow hrow' hbefore e he e' he'
    obtain ⟨column, hcolumn, he⟩ := List.mem_filterMap.1 he
    obtain ⟨column', hcolumn', he'⟩ := List.mem_filterMap.1 he'
    have hstop := (inside_element hrow hcolumn he).2.stop
    have hstart := (inside_element hrow' hcolumn' he').2.start
    exact .inr (.inr (.inl (Int.le_trans hstop (Int.le_trans hbefore hstart))))

/-- All elements stand to the right of all labels. -/
theorem apart_label_element {label : Label} (hlabel : label ∈ d.scene.labels) {e : Element}
    (he : e ∈ d.scene.elements) : label.bounds.Apart e.bounds := by
  obtain ⟨row, hrow, rfl⟩ := List.mem_map.1 hlabel
  obtain ⟨row', hrow', column, hcolumn, he⟩ := mem_elements.1 he
  have hstop := (inside_label hrow).1.stop
  have hstart := (inside_element hrow' hcolumn he).1.start
  exact .inl (Int.le_trans hstop (Int.le_trans (labelBand_before hcolumn) hstart))

end Boxes

/-! ## Ends of lines -/

section Lines

variable {m : Circuit} {surface : Size} {f : TextMetrics} {s : LayoutSettings}
  {d : m.Division surface f s} {row : Row} {column : Column} {p : Segment}

/-- A piece between bands that are inside another one begins and ends there. -/
theorem ends_of_mem_piecesBetween {piece : Int → Int → Segment} {met : List Band} {outer : Band}
    (h : ∀ b ∈ met, b.Inside outer) (hp : p ∈ piecesBetween piece met) : ∃ y₁ y₂,
      p = piece y₁ y₂ ∧ (outer.start ≤ y₁ ∧ y₁ ≤ outer.stop) ∧
        outer.start ≤ y₂ ∧ y₂ ≤ outer.stop := by
  obtain ⟨_, b, c, _, rfl, rfl⟩ := exists_of_mem_piecesBetween hp
  have hb : b.Inside outer := h b (by simp)
  have hc : c.Inside outer := h c (by simp)
  exact ⟨_, _, rfl, ⟨Int.le_trans hb.start (Band.start_le_stop hb.length), hb.stop⟩, hc.start,
    Int.le_trans (Band.start_le_stop hc.length) hc.stop⟩

/-- The middle of what is inside a band is there too. -/
theorem center_of_inside {b outer : Band} (h : b.Inside outer) :
    outer.start ≤ b.center ∧ b.center ≤ outer.stop := by
  obtain ⟨hstart, hstop⟩ := Band.center_mem h.length
  exact ⟨Int.le_trans h.start hstart, Int.le_trans hstop h.stop⟩

theorem inside_metByWire (hrow : row ∈ d.scene.rows) (hcolumn : column ∈ d.scene.columns) :
    (d.scene.metByWire row column).Inside column.band := by
  rw [metByWire]
  cases he : d.scene.element? row column with
  | none => exact Band.inside_last (nonneg_of_mem_columns hcolumn)
  | some e => exact (inside_element hrow hcolumn he).1

theorem inside_endOfWire {b : Band} (hcolumn : column ∈ d.scene.columns)
    (hb : b ∈ d.scene.endOfWire row column) : b.Inside column.band := by
  unfold endOfWire at hb
  split at hb
  · rw [List.mem_singleton.1 hb]
    exact Band.inside_last (nonneg_of_mem_columns hcolumn)
  · cases hb

theorem holds_of_mem_wires (hp : p ∈ d.scene.wires) :
    d.scene.frame.bounds.Holds p.start ∧ d.scene.frame.bounds.Holds p.stop := by
  obtain ⟨row, hrow, hp⟩ := List.mem_flatMap.1 hp
  have hmet : ∀ b ∈ (d.scene.label row).bounds.horizontal ::
      (d.scene.columns.map (d.scene.metByWire row) ++
        d.scene.columns.getLast?.toList.flatMap (d.scene.endOfWire row)),
      b.Inside d.scene.frame.bounds.horizontal := by
    intro b hb
    rcases List.mem_cons.1 hb with rfl | hb
    · exact (inside_label hrow).1.trans (inside_labelBand d)
    rcases List.mem_append.1 hb with hb | hb
    · obtain ⟨column, hcolumn, rfl⟩ := List.mem_map.1 hb
      exact (inside_metByWire hrow hcolumn).trans (inside_of_mem_columns hcolumn)
    · obtain ⟨column, hlast, hb⟩ := List.mem_flatMap.1 hb
      have hcolumn := List.mem_of_getLast? (Option.mem_toList.1 hlast)
      exact (inside_endOfWire hcolumn hb).trans (inside_of_mem_columns hcolumn)
  rw [wire] at hp
  obtain ⟨x₁, x₂, rfl, hx₁, hx₂⟩ := ends_of_mem_piecesBetween hmet hp
  have hy := center_of_inside (inside_of_mem_rows hrow)
  exact ⟨⟨hx₁.1, hx₁.2, hy.1, hy.2⟩, hx₂.1, hx₂.2, hy.1, hy.2⟩

/-- The pieces of a connector are between what is met in its own row and in rows below. -/
theorem mem_connector {scene : Scene} {below : List Row}
    (hp : p ∈ scene.connector column row below) : ∃ style through, through ⊆ row :: below ∧
      p ∈ piecesBetween (.connector style column.band.center)
        (through.map (scene.metByConnector column)) := by
  unfold connector at hp
  split at hp
  · cases hp
  split at hp
  · cases hp
  split at hp
  · cases hp
  · exact ⟨_, _, List.cons_subset_cons _ (List.takeWhile_subset _), hp⟩

theorem holds_of_mem_connectors (hp : p ∈ d.scene.connectors) :
    d.scene.frame.bounds.Holds p.start ∧ d.scene.frame.bounds.Holds p.stop := by
  obtain ⟨column, hcolumn, hp⟩ := List.mem_flatMap.1 hp
  rw [connectorsIn_eq] at hp
  obtain ⟨chain, hchain, hp⟩ := List.mem_flatMap.1 hp
  obtain ⟨above, row, below, hrows, -, hconnector⟩ := mem_chainsIn.1 hchain
  rw [← hconnector] at hp
  obtain ⟨style, through, hthrough, hp⟩ := mem_connector hp
  have hmet : ∀ b ∈ through.map (d.scene.metByConnector column),
      b.Inside d.scene.frame.bounds.vertical := by
    intro b hb
    obtain ⟨r, hr, rfl⟩ := List.mem_map.1 hb
    have hrow : r ∈ d.scene.rows := by
      rw [hrows]
      exact List.mem_append_right _ (hthrough hr)
    exact (inside_metByConnector hcolumn hrow).trans (inside_of_mem_rows hrow)
  obtain ⟨y₁, y₂, rfl, hy₁, hy₂⟩ := ends_of_mem_piecesBetween hmet hp
  have hx := center_of_inside (inside_of_mem_columns hcolumn)
  exact ⟨⟨hx.1, hx.2, hy₁.1, hy₁.2⟩, hx.1, hx.2, hy₂.1, hy₂.2⟩

end Lines

end Scene

/-! ## Placement -/

/-- Nothing in the layout overlaps, and nothing is outside it. -/
structure Layout.Placed (l : Layout) : Prop where
  widths : ∀ width ∈ l.frame.widths, 0 ≤ width
  heights : ∀ height ∈ l.frame.heights, 0 ≤ height
  cells_apart : ∀ {k r k' r' : Nat} {b b' : Box}, l.frame.cell? k r = some b →
    l.frame.cell? k' r' = some b' → (k, r) ≠ (k', r') → b.Apart b'
  /-- A label is in its row of the column of labels, the first one of the frame. -/
  label_cell : ∀ label ∈ l.labels, label.cell.contains label.bounds = true ∧
    ∃ r, l.rows[r]? = some label.channel ∧ l.frame.cell? 0 r = some label.cell
  element_cell : ∀ e ∈ l.elements, e.cell.contains e.bounds = true ∧
    ∃ r, l.rows[r]? = some e.channel ∧ l.frame.cell? (e.column + 1) r = some e.cell
  boxes_apart : (l.labels.map (·.bounds) ++ l.elements.map (·.bounds)).Pairwise Box.Apart
  labels_within : ∀ label ∈ l.labels, l.bounds.contains label.bounds = true
  elements_within : ∀ e ∈ l.elements, l.bounds.contains e.bounds = true
  lines_within : ∀ p ∈ l.segments, l.bounds.Holds p.start ∧ l.bounds.Holds p.stop

namespace Circuit

theorem Division.placed {m : Circuit} {surface : Size} {f : TextMetrics} {s : LayoutSettings}
    (d : m.Division surface f s) : d.layout.Placed where
  widths := d.nonneg_widths
  heights _ h := d.nonneg_of_mem_heights h
  cells_apart := Frame.apart_cells d.laid_columns d.laid_rows
  label_cell label hlabel := by
    obtain ⟨row, hrow, rfl⟩ := List.mem_map.1 hlabel
    obtain ⟨r, hr⟩ := List.mem_iff_getElem?.1 hrow
    obtain ⟨hh, hv⟩ := Scene.inside_label hrow
    exact ⟨Box.contains_of_inside hh hv, r, (Scene.getElem?_rows.1 hr).1, Scene.cell?_label hr⟩
  element_cell e he := by
    obtain ⟨row, hrow, column, hcolumn, he⟩ := Scene.mem_elements.1 he
    obtain ⟨hh, hv⟩ := Scene.inside_element hrow hcolumn he
    obtain ⟨r, hr⟩ := List.mem_iff_getElem?.1 hrow
    obtain ⟨i, -, rfl⟩ := Scene.element?_eq_some.1 he
    exact ⟨Box.contains_of_inside hh hv, r, (Scene.getElem?_rows.1 hr).1,
      Scene.cell?_eq (Scene.getElem?_index hcolumn) hr⟩
  boxes_apart := by
    refine List.pairwise_append.2 ⟨List.pairwise_map.2 (Scene.pairwise_labels d),
      List.pairwise_map.2 (Scene.pairwise_elements d), ?_⟩
    intro b hb b' hb'
    obtain ⟨label, hlabel, rfl⟩ := List.mem_map.1 hb
    obtain ⟨e, he, rfl⟩ := List.mem_map.1 hb'
    exact Scene.apart_label_element d hlabel he
  labels_within label hlabel := by
    obtain ⟨row, hrow, rfl⟩ := List.mem_map.1 hlabel
    obtain ⟨hh, hv⟩ := Scene.inside_label hrow
    exact Box.contains_of_inside (hh.trans (Scene.inside_labelBand d))
      (hv.trans (Scene.inside_of_mem_rows hrow))
  elements_within e he := by
    obtain ⟨row, hrow, column, hcolumn, he⟩ := Scene.mem_elements.1 he
    obtain ⟨hh, hv⟩ := Scene.inside_element hrow hcolumn he
    exact Box.contains_of_inside (hh.trans (Scene.inside_of_mem_columns hcolumn))
      (hv.trans (Scene.inside_of_mem_rows hrow))
  lines_within p hp := by
    rcases List.mem_append.1 hp with hp | hp
    · exact Scene.holds_of_mem_wires hp
    · exact Scene.holds_of_mem_connectors hp

/-- **Nothing in a layout overlaps**, and nothing is outside it, whatever the surface, the font and
the settings are, and whether the shares are computed exactly or in any arithmetic. -/
theorem placed_layout (m : Circuit) (surface : Size) (f : TextMetrics) (s : LayoutSettings) :
    (m.layout surface f s).Placed ∧ ∀ a : Arithmetic, (m.layoutBy a surface f s).Placed :=
  Division.forall_layout Layout.Placed Division.placed

end Circuit

end QuantumDiagram
