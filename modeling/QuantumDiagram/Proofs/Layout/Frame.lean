import QuantumDiagram.Proofs.Layout.Scene

/-!
# Bands of a frame

No width and no height of a frame is negative, so that the columns and the rows are bands that lie
side by side from edge to edge (`Laid`, `Circuit.Division.laid_columns`,
`Circuit.Division.laid_rows`). What is drawn in a cell stays inside its column and its row
(`Scene.inside_of_element?`).
-/

namespace QuantumDiagram

/-! ## Bands side by side -/

/-- `b.Inside c`: the band `b` has a length that is not negative, and no part of it is outside
`c`. -/
structure Band.Inside (b c : Band) : Prop where
  start : c.start ≤ b.start
  length : 0 ≤ b.length
  stop : b.stop ≤ c.stop

theorem Band.start_le_stop {b : Band} (h : 0 ≤ b.length) : b.start ≤ b.stop := by
  simp only [Band.stop]
  omega

theorem Band.inside_last {b : Band} (h : 0 ≤ b.length) : b.last.Inside b where
  start := start_le_stop h
  length := Int.le_refl 0
  stop := Int.le_of_eq b.stop_last

/-- `Laid start bands stop`: the bands lie side by side from `start` to `stop`. -/
def Laid : Int → List Band → Int → Prop
  | start, [], stop => start = stop
  | start, b :: rest, stop => b.start = start ∧ 0 ≤ b.length ∧ Laid b.stop rest stop

theorem laid_bandsFrom {lengths : List Int} (h : ∀ n ∈ lengths, 0 ≤ n) (start : Int) :
    Laid start (bandsFrom start lengths) (start + total lengths) := by
  induction lengths generalizing start with
  | nil => exact (Int.add_zero start).symm
  | cons n ns ih =>
    refine ⟨rfl, h n List.mem_cons_self, ?_⟩
    rw [total_cons, ← Int.add_assoc]
    exact ih (fun k hk => h k (List.mem_cons_of_mem _ hk)) (start + n)

theorem laid_append {start stop : Int} {before behind : List Band} :
    Laid start (before ++ behind) stop ↔
      ∃ middle, Laid start before middle ∧ Laid middle behind stop := by
  induction before generalizing start with
  | nil => simp [Laid]
  | cons b before ih =>
    rw [List.cons_append, Laid, ih]
    constructor
    · rintro ⟨hstart, hlength, middle, hbefore, hbehind⟩
      exact ⟨middle, ⟨hstart, hlength, hbefore⟩, hbehind⟩
    · rintro ⟨middle, ⟨hstart, hlength, hbefore⟩, hbehind⟩
      exact ⟨hstart, hlength, middle, hbefore, hbehind⟩

theorem Laid.le {start stop : Int} {bands : List Band} (h : Laid start bands stop) :
    start ≤ stop := by
  induction bands generalizing start with
  | nil => exact Int.le_of_eq h
  | cons b rest ih =>
    obtain ⟨rfl, hlength, hrest⟩ := h
    exact Int.le_trans (Band.start_le_stop hlength) (ih hrest)

theorem Laid.stop_eq {start stop : Int} {before : List Band} {last : Band}
    (h : Laid start (before ++ [last]) stop) : last.stop = stop := by
  obtain ⟨_, -, -, -, hstop⟩ := laid_append.1 h
  exact hstop

/-- Each of the bands is inside the whole. -/
theorem Laid.bounds {start stop : Int} {bands : List Band} (h : Laid start bands stop) :
    ∀ b ∈ bands, start ≤ b.start ∧ 0 ≤ b.length ∧ b.stop ≤ stop := by
  induction bands generalizing start with
  | nil => simp
  | cons b rest ih =>
    obtain ⟨rfl, hlength, hrest⟩ := h
    intro c hc
    rcases List.mem_cons.1 hc with rfl | hc
    · exact ⟨Int.le_refl _, hlength, hrest.le⟩
    · obtain ⟨hstart, hpos, hstop⟩ := ih hrest c hc
      exact ⟨Int.le_trans (Band.start_le_stop hlength) hstart, hpos, hstop⟩

/-- Bands side by side follow one another. -/
theorem Laid.pairwise {start stop : Int} {bands : List Band} (h : Laid start bands stop) :
    bands.Pairwise fun b c => b.stop ≤ c.start := by
  induction bands generalizing start with
  | nil => exact .nil
  | cons b rest ih =>
    obtain ⟨-, -, hrest⟩ := h
    exact List.pairwise_cons.2 ⟨fun c hc => (hrest.bounds c hc).1, ih hrest⟩

/-- Of bands side by side, the one at the smaller index comes before the other. -/
theorem Laid.before {start stop : Int} {bands : List Band} (h : Laid start bands stop) {i j : Nat}
    {b c : Band} (hb : bands[i]? = some b) (hc : bands[j]? = some c) (hlt : i < j) :
    b.stop ≤ c.start := by
  obtain ⟨hi, rfl⟩ := List.getElem?_eq_some_iff.1 hb
  obtain ⟨hj, rfl⟩ := List.getElem?_eq_some_iff.1 hc
  exact List.pairwise_iff_getElem.1 h.pairwise i j hi hj hlt

/-- What is inside of bands side by side follows one another too. -/
theorem Laid.pairwise_inside {α : Type} {place part : α → Band} {items : List α} {start stop : Int}
    (h : Laid start (items.map place) stop) (hinside : ∀ a ∈ items, (part a).Inside (place a)) :
    (items.map part).Pairwise fun b c => b.stop ≤ c.start := by
  refine List.pairwise_map.2 ((List.pairwise_map.1 h.pairwise).imp_of_mem ?_)
  intro a a' ha ha' hfollow
  have hstop := (hinside a ha).stop
  have hstart := (hinside a' ha').start
  omega

/-! ## The frame of a division -/

namespace Circuit.Division

variable {m : Circuit} {surface : Size} {f : TextMetrics} {s : LayoutSettings}
  (d : m.Division surface f s)

theorem nonneg_of_mem_heights {n : Int} (h : n ∈ d.frame.heights) : 0 ≤ n := by
  rcases List.mem_append.1 h with h | h
  · exact d.nonneg_heights n h
  · split at h
    · rename_i hcaptions
      rw [List.mem_singleton.1 h]
      exact Int.le_of_lt hcaptions
    · cases h

theorem laid_columns : Laid 0 d.frame.columns d.frame.bounds.right :=
  laid_bandsFrom d.nonneg_widths 0

theorem laid_rows : Laid 0 d.frame.rows d.frame.bounds.bottom :=
  laid_bandsFrom (fun _ h => d.nonneg_of_mem_heights h) 0

end Circuit.Division

/-! ## The bands of a scene -/

namespace Scene

theorem getElem?_rows {s : Scene} {r : Nat} {row : Row} :
    s.rows[r]? = some row ↔
      s.circuit.visibleRows[r]? = some row.channel ∧ s.frame.rows[r]? = some row.band := by
  rw [rows, List.getElem?_zipWith_eq_some]
  constructor
  · rintro ⟨c, b, hc, hb, rfl⟩
    exact ⟨hc, hb⟩
  · rintro ⟨hc, hb⟩
    exact ⟨_, _, hc, hb, rfl⟩

/-- The columns of the circuit stand behind the column of labels. -/
theorem getElem?_columns {s : Scene} {k : Nat} {column : Column} :
    s.columns[k]? = some column ↔
      k < s.circuit.columns ∧ column.index = k ∧ s.frame.columns[k + 1]? = some column.band := by
  rw [columns, List.getElem?_zipWith_eq_some]
  constructor
  · rintro ⟨n, b, hn, hb, rfl⟩
    obtain ⟨hk, rfl⟩ := List.getElem?_eq_some_iff.1 hn
    exact ⟨by simpa using hk, by simp, by simpa using hb⟩
  · rintro ⟨hk, rfl, hb⟩
    exact ⟨_, _, List.getElem?_range hk, by simpa using hb, rfl⟩

theorem getElem?_index {s : Scene} {column : Column} (h : column ∈ s.columns) :
    s.columns[column.index]? = some column := by
  obtain ⟨k, hk⟩ := List.mem_iff_getElem?.1 h
  rwa [(getElem?_columns.1 hk).2.1]

section Bands

variable {m : Circuit} {surface : Size} {f : TextMetrics} {s : LayoutSettings}
  (d : m.Division surface f s)

theorem map_band_columns : d.scene.columns.map Column.band = d.scene.frame.columns.tail := by
  unfold columns
  rw [← List.map_uncurry_zip_eq_zipWith, List.map_map]
  apply List.map_snd_zip
  show (bandsFrom 0 d.widths).tail.length ≤ (List.range m.columns).length
  rw [List.length_tail, length_bandsFrom, d.length_widths, List.length_range]
  omega

/-- The column of labels and the columns of the circuit fill the width of the drawing. -/
theorem laid_columns : 0 ≤ d.scene.labelBand.length ∧
    Laid d.scene.labelBand.stop (d.scene.columns.map Column.band)
      d.scene.frame.bounds.right := by
  have hlaid := d.laid_columns
  have hlength := d.length_widths
  rw [map_band_columns]
  show 0 ≤ Band.length ⟨0, d.widths.headD 0⟩ ∧
    Laid (Band.stop ⟨0, d.widths.headD 0⟩) (bandsFrom 0 d.widths).tail _
  have hcolumns : d.frame.columns = bandsFrom 0 d.widths := rfl
  rw [hcolumns] at hlaid
  cases hwidths : d.widths with
  | nil =>
    rw [hwidths] at hlength
    cases hlength
  | cons w widths =>
    rw [hwidths] at hlaid
    exact ⟨hlaid.2.1, hlaid.2.2⟩

theorem map_band_rows : d.scene.rows.map Row.band =
    d.scene.frame.rows.take m.visibleRows.length := by
  have hlength : m.visibleRows.length ≤ d.scene.frame.rows.length := by
    show _ ≤ (bandsFrom 0 d.frame.heights).length
    rw [length_bandsFrom]
    exact d.length_visibleRows_le
  have hmin : min d.scene.circuit.visibleRows.length d.scene.frame.rows.length =
      m.visibleRows.length :=
    Nat.min_eq_left hlength
  rw [rows, List.zipWith_eq_zipWith_take_min, hmin, ← List.map_uncurry_zip_eq_zipWith,
    List.map_map]
  apply List.map_snd_zip
  rw [List.length_take, List.length_take]
  exact Nat.le_min.2 ⟨Nat.min_le_left _ _, Nat.min_le_left _ _⟩

theorem exists_laid_rows : ∃ stop, Laid 0 (d.scene.rows.map Row.band) stop := by
  have hlaid : Laid 0 d.scene.frame.rows d.scene.frame.bounds.bottom := d.laid_rows
  rw [← List.take_append_drop m.visibleRows.length d.scene.frame.rows, laid_append] at hlaid
  obtain ⟨stop, hrows, -⟩ := hlaid
  rw [map_band_rows]
  exact ⟨stop, hrows⟩

end Bands

section Lengths

variable {m : Circuit} {surface : Size} {f : TextMetrics} {s : LayoutSettings}
  {d : m.Division surface f s}

theorem nonneg_of_mem_columns {column : Column} (h : column ∈ d.scene.columns) :
    0 ≤ column.band.length :=
  ((laid_columns d).2.bounds _ (List.mem_map_of_mem h)).2.1

theorem nonneg_of_mem_rows {row : Row} (h : row ∈ d.scene.rows) : 0 ≤ row.band.length := by
  obtain ⟨stop, hlaid⟩ := exists_laid_rows d
  exact (hlaid.bounds _ (List.mem_map_of_mem h)).2.1

end Lengths

end Scene

/-! ## What is drawn in a cell -/

/-- A box in the middle of a cell is inside its column and its row, whatever size it should have. -/
theorem Box.inside_centered {horizontal vertical : Band} (hh : 0 ≤ horizontal.length)
    (hv : 0 ≤ vertical.length) (width height : Int) :
    ((Box.ofBands horizontal vertical).centered width height).horizontal.Inside horizontal ∧
      ((Box.ofBands horizontal vertical).centered width height).vertical.Inside vertical := by
  have hcontains := Box.contains_centered (b := Box.ofBands horizontal vertical) hh hv width height
  obtain ⟨hx, hy, hright, hbottom⟩ := Box.contains_iff.1 hcontains
  exact ⟨⟨hx, Int.le_max_left 0 _, hright⟩, ⟨hy, Int.le_max_left 0 _, hbottom⟩⟩

namespace Scene

variable {s : Scene} {row : Row} {column : Column} {e : Element}

theorem element?_eq_some : s.element? row column = some e ↔
    ∃ i, s.circuit.grid.get? row.channel column.index = some i ∧
      .ofInstruction s.metrics s.settings (.ofBands column.band row.band)
        ⟨row.channel, column.index⟩ i = e :=
  Option.map_eq_some_iff

theorem inside_of_element? (h : s.element? row column = some e) (hcolumn : 0 ≤ column.band.length)
    (hrow : 0 ≤ row.band.length) :
    e.bounds.horizontal.Inside column.band ∧ e.bounds.vertical.Inside row.band := by
  obtain ⟨i, -, rfl⟩ := element?_eq_some.1 h
  exact Box.inside_centered hcolumn hrow _ _

end Scene

end QuantumDiagram
