import QuantumDiagram.Proofs.Layout.ByPosition
import QuantumDiagram.Proofs.Layout.Connectors

/-!
# Lines by position

The pieces of wires and connectors that are made from one position to the next are those between
what the lines of the scene meet (`Circuit.wiresByPosition?_eq` and
`Circuit.connectorsByPosition?_eq`). A wire starts behind what is in the column before
(`Scene.wireStart_eq`); a connector, which looks at one row after the other, reaches its lowest
participant and ends there (`Scene.walk?_eq`).
-/

namespace QuantumDiagram

namespace Scene

section Wires

variable {m : Circuit} {surface : Size} {f : TextMetrics} {s : LayoutSettings}
  {d : m.Division surface f s} {r : Nat} {row : Row} {column : Column} {before behind : List Column}

/-- The place of a column tells how many columns are before it. -/
theorem index_eq_length (hsplit : d.scene.columns = before ++ column :: behind) :
    column.index = before.length := by
  have hcolumn : d.scene.columns[before.length]? = some column := by
    rw [hsplit]
    simp
  exact (getElem?_columns.1 hcolumn).2.1

theorem placed?_eq (hrow : row ∈ d.scene.rows) (hcolumn : column ∈ d.scene.columns) :
    placed? d.scene.elements row.channel column.index = d.scene.element? row column :=
  Layout.element?_eq hrow hcolumn

/-- A piece of a wire begins behind what the wire has met before. -/
theorem wireStart_eq (hrow : d.scene.rows[r]? = some row)
    (hsplit : d.scene.columns = before ++ column :: behind) {previous : Band}
    (hprevious : ((d.scene.label row).bounds.horizontal ::
      before.map (d.scene.metByWire row)).getLast? = some previous) :
    wireStart d.scene.labels d.scene.elements row.channel r column.index column.band.start =
      previous.stop := by
  unfold wireStart
  rcases List.eq_nil_or_concat' before with rfl | ⟨before, last, rfl⟩
  · obtain rfl : (d.scene.label row).bounds.horizontal = previous := by
      simpa using hprevious
    have hindex : column.index = 0 := index_eq_length hsplit
    rw [if_pos hindex, labels, List.getElem?_map, hrow]
    rfl
  · obtain rfl : d.scene.metByWire row last = previous := by
      rw [List.map_append, ← List.cons_append, List.map_singleton,
        List.getLast?_concat] at hprevious
      exact Option.some.inj hprevious
    have hindex : column.index = before.length + 1 := by
      rw [index_eq_length hsplit, List.length_append, List.length_singleton]
    have hlast : d.scene.columns = before ++ last :: (column :: behind) := by
      rw [hsplit, List.append_assoc]
      rfl
    -- The next column begins where the last one ends.
    have hadjacent : column.band.start = last.band.stop := by
      have hlaid := (laid_columns d).2
      rw [hlast, List.map_append, laid_append] at hlaid
      obtain ⟨_, -, -, -, hstart, -⟩ := hlaid
      exact hstart
    have hplaced :
        placed? d.scene.elements row.channel (column.index - 1) = d.scene.element? row last := by
      rw [hindex, Nat.add_sub_cancel, ← index_eq_length hlast]
      exact placed?_eq (List.mem_of_getElem? hrow) (by simp [hlast])
    rw [if_neg (by omega), hplaced, metByWire]
    cases d.scene.element? row last with
    | none => rw [Band.stop_last, ← hadjacent]; rfl
    | some e => rfl

/-- The pieces in a column are those before and behind what the wire meets there. -/
theorem wireByPosition?_eq (hrow : d.scene.rows[r]? = some row)
    (hsplit : d.scene.columns = before ++ column :: behind) {previous : Band}
    (hprevious : ((d.scene.label row).bounds.horizontal ::
      before.map (d.scene.metByWire row)).getLast? = some previous) :
    m.wireByPosition? d.scene.frame d.scene.labels d.scene.elements row.channel r column.index =
      some (piecesBetween (.wire (.ofClassical row.channel.isClassical) · · row.band.center)
        (previous :: d.scene.metByWire row column ::
          if behind = [] then d.scene.endOfWire row column else [])) := by
  have hcolumn : column ∈ d.scene.columns := by simp [hsplit]
  have hend : column.index + 1 = m.columns ↔ behind = [] := by
    have hlength := congrArg List.length (map_index_columns d)
    rw [List.length_map, List.length_range, hsplit, List.length_append, List.length_cons,
      ← index_eq_length hsplit] at hlength
    rw [← List.length_eq_zero_iff]
    omega
  have hplaced := placed?_eq (List.mem_of_getElem? hrow) hcolumn
  have hstart := wireStart_eq hrow hsplit hprevious
  have hcell := cell?_eq (getElem?_index hcolumn) hrow
  unfold metByWire endOfWire
  simp only [Circuit.wireByPosition?, hcell, hplaced]
  cases helement : d.scene.element? row column with
  | none =>
    change some [Segment.wire _ (wireStart _ _ _ _ _ column.band.start) column.band.stop
      row.band.center] = _
    rw [hstart]
    by_cases hbehind : behind = []
    · rw [if_pos hbehind]
      rfl
    · rw [if_neg hbehind]
      rfl
  | some e =>
    change some (Segment.wire _ (wireStart _ _ _ _ _ column.band.start) e.bounds.x
        row.band.center ::
      if column.index + 1 = m.columns then
        [Segment.wire _ e.bounds.right column.band.stop row.band.center] else []) = _
    rw [hstart]
    by_cases hbehind : behind = []
    · rw [if_pos (hend.2 hbehind), if_pos hbehind]
      rfl
    · rw [if_neg (mt hend.1 hbehind), if_neg hbehind]
      rfl

/-- The wire through the columns from some column on, behind what it has met before. -/
theorem flatMapM_wireByPosition? (hrow : d.scene.rows[r]? = some row)
    (hsplit : d.scene.columns = before ++ behind) {previous : Band}
    (hprevious : ((d.scene.label row).bounds.horizontal ::
      before.map (d.scene.metByWire row)).getLast? = some previous) :
    (behind.map Column.index).flatMapM (m.wireByPosition? d.scene.frame d.scene.labels
        d.scene.elements row.channel r) =
      some (piecesBetween (.wire (.ofClassical row.channel.isClassical) · · row.band.center)
        (previous :: (behind.map (d.scene.metByWire row) ++
          behind.getLast?.toList.flatMap (d.scene.endOfWire row)))) := by
  induction behind generalizing before previous with
  | nil => rfl
  | cons column behind ih =>
    have hnext : ((d.scene.label row).bounds.horizontal ::
        (before ++ [column]).map (d.scene.metByWire row)).getLast? =
          some (d.scene.metByWire row column) := by
      rw [List.map_append, ← List.cons_append]
      exact List.getLast?_concat
    have hrest := ih (hsplit.trans (List.append_cons ..)) hnext
    rw [List.map_cons, List.flatMapM_cons, wireByPosition?_eq hrow hsplit hprevious, hrest]
    cases behind with
    | nil => simp
    | cons next behind =>
      rw [if_neg (List.cons_ne_nil _ _), List.getLast?_cons_cons]
      rfl

end Wires

section Connectors

variable {source : Text} {m : Circuit} {surface : Size} {f : TextMetrics} {s : LayoutSettings}
  {d : m.Division surface f s} {r : Nat} {column : Column} {row low : Row}
  {above below between beyond : List Row}

theorem metAt?_eq (hrow : d.scene.rows[r]? = some row) (hcolumn : column ∈ d.scene.columns) :
    metAt? d.scene.frame d.scene.elements column.index row.channel r =
      some (d.scene.metByConnector column row) := by
  rw [metAt?, placed?_eq (List.mem_of_getElem? hrow) hcolumn, metByConnector,
    cell?_eq (getElem?_index hcolumn) hrow]
  cases d.scene.element? row column <;> rfl

/-- The walk from row to row ends at the lowest one, and makes the pieces between what it meets. -/
theorem walk?_eq (hcolumn : column ∈ d.scene.columns)
    (hrows : d.scene.rows = above ++ (between ++ low :: beyond))
    (hbetween : ∀ row ∈ between, row.channel ≠ low.channel) (style : LineStyle)
    (previous : Band) :
    walk? d.scene.frame d.scene.elements style column.band.center
        column.index low.channel previous.stop
        (((between ++ low :: beyond).map Row.channel).zipIdx above.length) =
      some (piecesBetween (.connector style column.band.center)
        (previous :: (between ++ [low]).map (d.scene.metByConnector column))) := by
  induction between generalizing above previous with
  | nil =>
    have hlow : d.scene.rows[above.length]? = some low := by simp [hrows]
    simp [walk?, metAt?_eq hlow hcolumn]
  | cons row between ih =>
    have hrow : d.scene.rows[above.length]? = some row := by simp [hrows]
    have hne : row.channel ≠ low.channel := hbetween row List.mem_cons_self
    have hsplit : d.scene.rows = (above ++ [row]) ++ (between ++ low :: beyond) := by
      simp [hrows]
    have hrest := ih hsplit (fun row hrow => hbetween row (List.mem_cons_of_mem _ hrow))
      (d.scene.metByConnector column row)
    rw [List.length_append, List.length_singleton] at hrest
    rw [List.cons_append, List.map_cons, List.zipIdx_cons, walk?, metAt?_eq hrow hcolumn,
      Option.bind_some, if_neg hne, hrest]
    rfl

/-- The connector that begins in a row, by position. -/
theorem connectorByPosition?_eq (h : Circuit.ofProgram source = .ok m)
    (hcolumn : column ∈ d.scene.columns) (hrows : d.scene.rows = above ++ row :: below) :
    m.connectorByPosition? d.scene.frame d.scene.elements
        column.band.center column.index row.channel above.length =
      some (d.scene.connector column row below) := by
  have hrow : row ∈ d.scene.rows := by simp [hrows]
  have hbelow : m.visibleRows.zipIdx.drop (above.length + 1) =
      (below.map Row.channel).zipIdx (above.length + 1) := by
    rw [← map_channel_rows d, hrows, List.append_cons, List.map_append,
      List.zipIdx_append]
    rw [List.drop_left' (by simp)]
    simp
  rw [Circuit.connectorByPosition?]
  cases hi : d.scene.begun? column row with
  | none =>
    rw [connector_eq_nil hi]
    cases hcell : m.grid.get? row.channel column.index with
    | none => rfl
    | some i => exact if_pos (passed_over_of_begun? hi hcell)
  | some i =>
    have hcell : m.grid.get? row.channel column.index = some i := (begun?_eq_some.1 hi).1
    obtain ⟨between, low, beyond, rfl, hlast, -⟩ := exists_lowest h hrows hi
    obtain ⟨top, htop⟩ : ∃ top, d.scene.element? row column = some top :=
      ⟨_, element?_eq_some.2 ⟨i, hcell, rfl⟩⟩
    have hbetween : ∀ r ∈ between, r.channel ≠ low.channel := fun r hr =>
      Channel.ne_of_lt (lt_of_mem_above (pairwise_below hrows) hr)
    have hsplit : d.scene.rows = (above ++ [row]) ++ (between ++ low :: beyond) := by
      simp [hrows]
    have hwalk := walk?_eq hcolumn hsplit hbetween (.ofClassical i.isClassicalLink)
      top.bounds.vertical
    rw [hcell]
    simp only [if_neg (not_passed_over_of_begun? hi), hlast, placed?_eq hrow hcolumn, htop, hbelow]
    rw [connector_eq_piecesBetween hrows hi hlast, List.map_cons, metByConnector_of_element? htop]
    rw [List.length_append, List.length_singleton] at hwalk
    exact hwalk

/-- The connectors of a column that begin in some row or below it. -/
theorem flatMapM_connectorByPosition? (h : Circuit.ofProgram source = .ok m)
    (hcolumn : column ∈ d.scene.columns) (hrows : d.scene.rows = above ++ below) :
    ((below.map Row.channel).zipIdx above.length).flatMapM (fun (c, row) =>
        m.connectorByPosition? d.scene.frame d.scene.elements
          column.band.center column.index c row) =
      some (d.scene.connectorsIn column below) := by
  induction below generalizing above with
  | nil => rfl
  | cons row below ih =>
    have hrest := ih (hrows.trans (List.append_cons ..))
    rw [List.length_append, List.length_singleton] at hrest
    rw [List.map_cons, List.zipIdx_cons, List.flatMapM_cons, hrest, connectorsIn_cons]
    show (m.connectorByPosition? _ _ _ _ row.channel above.length).bind _ = _
    rw [connectorByPosition?_eq h hcolumn hrows]
    rfl

end Connectors

end Scene

namespace Circuit

section Lines

variable {source : Text} {m : Circuit} {surface : Size} {f : TextMetrics} {s : LayoutSettings}
  (d : m.Division surface f s)

theorem wiresByPosition?_eq :
    m.wiresByPosition? d.scene.frame d.scene.labels d.scene.elements = some d.scene.wires := by
  have hrow (r : Nat) (row : Scene.Row) (hrow : d.scene.rows[r]? = some row) :
      (List.range m.columns).flatMapM (m.wireByPosition? d.scene.frame
        d.scene.labels d.scene.elements row.channel (0 + r)) =
          some (d.scene.wire d.scene.columns row) := by
    have hall : d.scene.columns = [] ++ d.scene.columns := rfl
    rw [Nat.zero_add, ← Scene.map_index_columns d]
    exact Scene.flatMapM_wireByPosition? hrow hall rfl
  rw [wiresByPosition?, flatMapM_eq, ← Scene.map_channel_rows d,
    mapM_zipIdx_eq_some hrow]
  rfl

theorem connectorsByPosition?_eq (h : ofProgram source = .ok m) :
    m.connectorsByPosition? d.scene.frame d.scene.elements = some d.scene.connectors := by
  rw [connectorsByPosition?, flatMapM_eq, ← Scene.map_index_columns d, List.mapM_map,
    mapM_eq_some (g := fun column => d.scene.connectorsIn column d.scene.rows)]
  · rfl
  intro column hcolumn
  have hband := (Scene.getElem?_columns.1 (Scene.getElem?_index hcolumn)).2.2
  show (d.scene.frame.columns[column.index + 1]?).bind _ = _
  have hall : d.scene.rows = [] ++ d.scene.rows := rfl
  rw [hband, Option.bind_some, ← Scene.map_channel_rows d]
  exact Scene.flatMapM_connectorByPosition? h hcolumn hall

end Lines

end Circuit

end QuantumDiagram
