import QuantumDiagram.Proofs.Circuit.SubroutineHeaders
import QuantumDiagram.Proofs.Layout.Filling

/-!
# Brackets under the subroutines

If the row of captions has room for a caption, the layout has one bracket for each subroutine of the
circuit, under exactly its columns (`Layout.IsBracket`, `Circuit.brackets_layout`). This holds in
every division of every surface: the row of captions keeps its height on a surface that is too
small, and the columns of a subroutine lie side by side, with or without a width.
-/

namespace QuantumDiagram

/-! ## Several columns as one -/

/-- Bands side by side, taken as one, have a length that is not negative. -/
theorem Laid.start_le_stop {start stop : Int} {bands : List Band} (h : Laid start bands stop)
    {i j : Nat} {b c : Band} (hb : bands[i]? = some b) (hc : bands[j]? = some c) (hle : i ≤ j) :
    b.start ≤ c.stop := by
  have hlength := Band.start_le_stop (h.bounds b (List.mem_of_getElem? hb)).2.1
  rcases Nat.eq_or_lt_of_le hle with rfl | hlt
  · obtain rfl := Option.some.inj (hb.symm.trans hc)
    exact hlength
  · have hbefore := h.before hb hc hlt
    have hlength' := Band.start_le_stop (h.bounds c (List.mem_of_getElem? hc)).2.1
    omega

namespace Frame

variable {frame : Frame} {start stop : Nat} {b : Band}

theorem getElem?_columns_eq_some {k : Nat} : frame.columns[k]? = some b ↔
    frame.widths[k]? = some b.length ∧ b.start = total (frame.widths.take k) := by
  rw [columns, getElem?_bandsFrom, Option.map_eq_some_iff]
  constructor
  · rintro ⟨length, hlength, rfl⟩
    exact ⟨hlength, Int.zero_add _⟩
  · rintro ⟨hlength, hstart⟩
    exact ⟨b.length, hlength, by rw [Int.zero_add, ← hstart]⟩

/-- Columns taken as one begin where the first of them begins. -/
theorem start_columnSpan (h : frame.columns[start]? = some b) :
    (frame.columnSpan start stop).start = b.start :=
  (getElem?_columns_eq_some.1 h).2.symm

/-- Columns taken as one end where the last of them ends. -/
theorem stop_columnSpan (h : frame.columns[stop]? = some b) (hle : start ≤ stop) :
    (frame.columnSpan start (stop + 1)).stop = b.stop := by
  obtain ⟨hlength, hstart⟩ := getElem?_columns_eq_some.1 h
  have htake : frame.widths.take (stop + 1) = frame.widths.take stop ++ [b.length] := by
    rw [List.take_add_one, hlength]
    rfl
  have hbefore : (frame.widths.take (stop + 1)).take start = frame.widths.take start := by
    rw [List.take_take, Nat.min_eq_left (Nat.le_succ_of_le hle)]
  calc total (frame.widths.take start) + total ((frame.widths.take (stop + 1)).drop start)
      = total (frame.widths.take (stop + 1)) := by
        rw [← hbefore, ← total_append, List.take_append_drop]
    _ = total (frame.widths.take stop) + b.length := by
        rw [htake, total_append]
        simp
    _ = b.stop := by rw [← hstart, Band.stop]

end Frame

/-! ## The row of captions -/

namespace Circuit

section Captions

variable {m : Circuit} {f : TextMetrics} {s : LayoutSettings}

theorem labelRowHeight_of_ne_nil (h : m.subroutines ≠ []) :
    m.labelRowHeight f s = s.labelRowLines * f.lineHeight := by
  unfold labelRowHeight
  rw [if_neg (by simpa using h)]

/-- The row of captions is the one below the visible rows, and as high as it should be, whatever the
surface. -/
theorem exists_captionBand {surface : Size} (d : m.Division surface f s)
    (h : 0 < m.labelRowHeight f s) : ∃ row, d.frame.rows[m.visibleRows.length]? = some row ∧
      row.length = m.labelRowHeight f s := by
  have hheight : d.frame.heights[m.visibleRows.length]? = some (m.labelRowHeight f s) := by
    show (d.heights ++ if 0 < m.labelRowHeight f s then [m.labelRowHeight f s] else [])[_]? = _
    rw [if_pos h, ← d.length_heights, List.getElem?_append_right (Nat.le_refl _), Nat.sub_self]
    rfl
  rw [Frame.rows, getElem?_bandsFrom, hheight]
  exact ⟨_, rfl, rfl⟩

end Captions

end Circuit

/-! ## One bracket -/

namespace Layout

/-- `RunsDown guide first x foot`: the guide is a vertical line at `x` that begins in the row
`first` and ends at the height `foot` below. -/
structure RunsDown (guide : Point × Point) (first : Band) (x foot : Int) : Prop where
  upper : guide.1.x = x
  lower : guide.2 = ⟨x, foot⟩
  begins : first.start ≤ guide.1.y ∧ guide.1.y ≤ first.stop
  down : guide.1.y ≤ foot

/-- `l.IsBracket first row sub b`: the bracket stands in the row of captions `row` under all columns
of the subroutine, and its guides come down from the row `first`. -/
structure IsBracket (l : Layout) (first row : Band) (sub : Subroutine) (b : Bracket) : Prop where
  name : b.name = sub.name
  caption : b.caption = sub.caption
  /-- The first column; the column of labels is before it. -/
  leftmost : ∃ column, l.frame.columns[sub.start + 1]? = some column ∧ b.area.x = column.start
  /-- The last column, the one before `sub.stop`. -/
  rightmost : ∃ column, l.frame.columns[sub.stop]? = some column ∧ b.area.right = column.stop
  width : b.area.x ≤ b.area.right
  vertical : b.area.vertical = row
  contained : l.bounds.contains b.area = true
  level : b.left.y = b.right.y
  left : b.left.x = b.area.x
  right : b.right.x = b.area.right
  /-- The line is in the row of captions and not below the middle of the caption. -/
  height : row.start ≤ b.left.y ∧ b.left.y ≤ b.anchor.y ∧ b.anchor.y ≤ row.stop
  guides : List.Forall₂ (fun guide x => RunsDown guide first x b.left.y) b.guides
    [b.area.x, b.area.right]

/-- `l.Bracketed subroutines first row`: the row of captions `row` is below all visible rows, the
first one of which is `first`, and holds one bracket for each of the subroutines, from left to
right. -/
structure Bracketed (l : Layout) (subroutines : List Subroutine) (first row : Band) : Prop where
  first_eq : l.frame.rows[0]? = some first
  row_eq : l.frame.rows[l.rows.length]? = some row
  below : ∀ r visible, r < l.rows.length → l.frame.rows[r]? = some visible →
    visible.stop ≤ row.start
  brackets : List.Forall₂ (l.IsBracket first row) subroutines l.brackets
  ordered : l.brackets.Pairwise fun b c => b.area.right ≤ c.area.x

end Layout

namespace Scene

/-- In a row that has room for a caption, the line of a bracket is not below the caption. -/
theorem height_bracket (scene : Scene) (sub : Subroutine) {row : Band} (hstart : 0 ≤ row.start)
    (hline : 0 < scene.metrics.lineHeight) (hmargin : 0 ≤ scene.settings.captionMargin)
    (hroom : scene.metrics.lineHeight + scene.settings.captionMargin ≤ row.length)
    (hmax : row.stop ≤ 2147483647) :
    row.start ≤ (scene.bracket row sub).left.y ∧
      (scene.bracket row sub).left.y ≤ (scene.bracket row sub).anchor.y ∧
      (scene.bracket row sub).anchor.y ≤ row.stop := by
  obtain ⟨y, height⟩ := row
  simp only [Band.stop] at hstart hroom hmax ⊢
  have hlevel : (scene.bracket ⟨y, height⟩ sub).left.y = saturate ((2 * y +
    (height - scene.metrics.lineHeight - scene.settings.captionMargin)).tdiv 2) := rfl
  have hanchor : (scene.bracket ⟨y, height⟩ sub).anchor.y = saturate ((2 * (y + height) -
    scene.metrics.lineHeight - scene.settings.captionMargin).tdiv 2) := rfl
  rw [hlevel, hanchor, Int.tdiv_eq_ediv_of_nonneg (by omega), Int.tdiv_eq_ediv_of_nonneg (by omega),
    saturate_eq_self (by omega) (by omega), saturate_eq_self (by omega) (by omega)]
  omega

/-- The guides of a bracket begin in the upper half of the first row. -/
theorem begins_guideTop (scene : Scene) (sub : Subroutine) (row : Band) {first : Band}
    (h : scene.frame.rows[0]? = some first) (hlength : 0 ≤ first.length) :
    first.start ≤ (scene.bracket row sub).guideTop ∧
      (scene.bracket row sub).guideTop ≤ first.stop := by
  rw [Frame.rows, getElem?_bandsFrom, Option.map_eq_some_iff] at h
  obtain ⟨height, hheight, rfl⟩ := h
  have htop : (scene.bracket row sub).guideTop = height.tdiv 4 := by
    show (scene.frame.heights.headD 0).tdiv 4 = height.tdiv 4
    rw [List.headD_eq_head?_getD, List.head?_eq_getElem?, hheight]
    rfl
  have hnonneg : 0 ≤ height := hlength
  rw [htop, Int.tdiv_eq_ediv_of_nonneg hnonneg, Band.stop]
  simp only [List.take_zero, total_nil]
  omega

end Scene

/-! ## All brackets -/

namespace Circuit

section Brackets

variable {source : Text} {m : Circuit} {surface : Size} {f : TextMetrics} {s : LayoutSettings}
  {d : m.Division surface f s}

/-- Each subroutine ends before the next ones begin. -/
theorem apart_of_ofProgram (hm : ofProgram source = .ok m) :
    m.subroutines.Pairwise fun r t => r.stop ≤ t.start := by
  obtain ⟨d, hranged, rfl, -⟩ := ranged_ofProgram hm
  exact hranged.apart

/-- The columns of a subroutine are columns of the frame. -/
theorem exists_columns_of_mem_subroutines (hm : ofProgram source = .ok m) {sub : Subroutine}
    (hsub : sub ∈ m.subroutines) (d : m.Division surface f s) :
    ∃ leftmost rightmost, d.frame.columns[sub.start + 1]? = some leftmost ∧
      d.frame.columns[sub.stop]? = some rightmost := by
  obtain ⟨hstart, hstop⟩ := bounds_of_mem_subroutines hm hsub
  have hlength : d.frame.columns.length = m.columns + 1 := by
    rw [Frame.columns, length_bandsFrom]
    exact d.length_widths
  exact ⟨_, _, List.getElem?_eq_getElem (by omega), List.getElem?_eq_getElem (by omega)⟩

/-- The area of a bracket goes from the left edge of the subroutine's first column to the right edge
of its last one. -/
theorem edges_bracket (scene : Scene) {sub : Subroutine} (hsub : sub.start < sub.stop)
    (row : Band) {leftmost rightmost : Band}
    (hleft : scene.frame.columns[sub.start + 1]? = some leftmost)
    (hright : scene.frame.columns[sub.stop]? = some rightmost) :
    (scene.bracket row sub).area.x = leftmost.start ∧
      (scene.bracket row sub).area.right = rightmost.stop := by
  have hx : (scene.bracket row sub).area.x =
    (scene.frame.columnSpan (sub.start + 1) (sub.stop + 1)).start := rfl
  have hr : (scene.bracket row sub).area.right =
    (scene.frame.columnSpan (sub.start + 1) (sub.stop + 1)).stop := rfl
  rw [hx, hr]
  exact ⟨Frame.start_columnSpan hleft, Frame.stop_columnSpan hright hsub⟩

/-- The bracket of a subroutine that ends before another one begins ends before the other's. -/
theorem bracket_before (hm : ofProgram source = .ok m) {sub sub' : Subroutine}
    (hsub : sub ∈ m.subroutines) (hsub' : sub' ∈ m.subroutines) (hapart : sub.stop ≤ sub'.start)
    (row : Band) :
    (d.scene.bracket row sub).area.right ≤ (d.scene.bracket row sub').area.x := by
  obtain ⟨_, rightmost, hleft, hright⟩ := exists_columns_of_mem_subroutines hm hsub d
  obtain ⟨leftmost, _, hleft', hright'⟩ := exists_columns_of_mem_subroutines hm hsub' d
  have hstart := (bounds_of_mem_subroutines hm hsub).1
  have hstart' := (bounds_of_mem_subroutines hm hsub').1
  have hr := (edges_bracket d.scene hstart row hleft hright).2
  have hx := (edges_bracket d.scene hstart' row hleft' hright').1
  rw [hr, hx]
  exact d.laid_columns.before hright hleft' (Nat.lt_succ_of_le hapart)

/-- A subroutine has its bracket, on every surface. -/
theorem isBracket_bracket (hm : ofProgram source = .ok m) {sub : Subroutine}
    (hsub : sub ∈ m.subroutines) (hline : 0 < f.lineHeight) (hmargin : 0 ≤ s.captionMargin)
    {first row : Band} (hfirst : d.scene.frame.rows[0]? = some first)
    (hrow : d.scene.frame.rows[m.visibleRows.length]? = some row)
    (hroom : f.lineHeight + s.captionMargin ≤ row.length)
    (hmax : d.layout.bounds.bottom ≤ 2147483647) :
    d.layout.IsBracket first row sub (d.scene.bracket row sub) := by
  obtain ⟨hstart, hstop⟩ := bounds_of_mem_subroutines hm hsub
  obtain ⟨leftmost, rightmost, hleft, hright⟩ := exists_columns_of_mem_subroutines hm hsub d
  obtain ⟨hx, hr⟩ := edges_bracket d.scene hstart row hleft hright
  have hcolumns := d.laid_columns
  have hrows := d.laid_rows
  have hrowBounds := hrows.bounds row (List.mem_of_getElem? hrow)
  have hfirstBounds := hrows.bounds first (List.mem_of_getElem? hfirst)
  have hlevel := d.scene.height_bracket sub hrowBounds.1 hline hmargin hroom
    (Int.le_trans hrowBounds.2.2 hmax)
  have hguides := d.scene.begins_guideTop sub row hfirst hfirstBounds.2.1
  have hbelow : first.stop ≤ row.start := by
    have hqubit := qubit_mem_visibleRows (qubits_pos_of_ofProgram hm)
    exact hrows.before hfirst hrow (List.length_pos_of_mem hqubit)
  have hdown := Int.le_trans hguides.2 (Int.le_trans hbelow hlevel.1)
  exact
    { name := rfl
      caption := rfl
      leftmost := ⟨leftmost, hleft, hx⟩
      rightmost := ⟨rightmost, hright, hr⟩
      width := by
        rw [hx, hr]
        exact hcolumns.start_le_stop hleft hright hstart
      vertical := rfl
      contained := by
        have hl := hcolumns.bounds leftmost (List.mem_of_getElem? hleft)
        have hr' := hcolumns.bounds rightmost (List.mem_of_getElem? hright)
        exact Box.contains_iff.2 ⟨hx ▸ hl.1, hrowBounds.1, hr ▸ hr'.2.2, hrowBounds.2.2⟩
      level := rfl
      left := rfl
      right := rfl
      height := hlevel
      guides := .cons ⟨rfl, rfl, hguides, hdown⟩ (.cons ⟨rfl, rfl, hguides, hdown⟩ .nil) }

theorem Division.bracketed (d : m.Division surface f s) (hm : ofProgram source = .ok m)
    (hne : m.subroutines ≠ []) (hline : 0 < f.lineHeight) (hmargin : 0 ≤ s.captionMargin)
    (hroom : f.lineHeight + s.captionMargin ≤ s.labelRowLines * f.lineHeight)
    (hmax : d.layout.bounds.bottom ≤ 2147483647) :
    ∃ first row, d.layout.Bracketed m.subroutines first row := by
  have hcaptions := labelRowHeight_of_ne_nil (f := f) (s := s) hne
  obtain ⟨row, hrow, hlength⟩ := exists_captionBand d (by omega)
  have hbrackets : d.layout.brackets = m.subroutines.map (d.scene.bracket row) := by
    have hcaption : d.scene.captionBand? = some row := hrow
    show d.scene.brackets = _
    rw [Scene.brackets, hcaption]
    rfl
  obtain ⟨hlast, -⟩ := List.getElem?_eq_some_iff.1 hrow
  obtain ⟨first, hfirst⟩ : ∃ first, d.layout.frame.rows[0]? = some first :=
    ⟨_, List.getElem?_eq_getElem (Nat.zero_lt_of_lt hlast)⟩
  have hforall : ∀ sub ∈ m.subroutines,
      d.layout.IsBracket first row sub (d.scene.bracket row sub) := by
    intro sub hsub
    exact isBracket_bracket hm hsub hline hmargin hfirst hrow (by omega) hmax
  refine ⟨first, row, hfirst, hrow, ?_, ?_, ?_⟩
  · intro r visible hr hvisible
    exact d.laid_rows.before hvisible hrow hr
  · rw [hbrackets, List.forall₂_map_right_iff, List.forall₂_same]
    exact hforall
  · rw [hbrackets, List.pairwise_map]
    exact (apart_of_ofProgram hm).imp_of_mem fun hsub hsub' hapart =>
      bracket_before hm hsub hsub' hapart row

/-- **One bracket for each subroutine.** In a row of captions with room for a caption, below all
visible rows, each subroutine has its bracket under its columns, and the brackets follow one another
from left to right, whether the shares are computed exactly or in any arithmetic. -/
theorem brackets_layout (hm : ofProgram source = .ok m) (hne : m.subroutines ≠ [])
    (hline : 0 < f.lineHeight) (hmargin : 0 ≤ s.captionMargin)
    (hroom : f.lineHeight + s.captionMargin ≤ s.labelRowLines * f.lineHeight) (surface : Size) :
    ((m.layout surface f s).bounds.bottom ≤ 2147483647 →
        ∃ first row, (m.layout surface f s).Bracketed m.subroutines first row) ∧
      ∀ a : Arithmetic, (m.layoutBy a surface f s).bounds.bottom ≤ 2147483647 →
        ∃ first row, (m.layoutBy a surface f s).Bracketed m.subroutines first row :=
  Division.forall_layout
    (fun l => l.bounds.bottom ≤ 2147483647 → ∃ first row, l.Bracketed m.subroutines first row)
    fun d => d.bracketed hm hne hline hmargin hroom

/-- Two subroutines side by side, on a surface without any room for the visible rows. -/
theorem brackets_layout_cramped :
    let source := "qubits 2\n.a(3)\n h q0\n cnot q0, q1\n.b\n x q1".toList
    let f := FontMetrics.toTextMetrics ⟨10, 20⟩
    ∃ m, ofProgram source = .ok m ∧
      m.subroutines = [⟨"a".toList, 3, 0, 2⟩, ⟨"b".toList, 1, 2, 3⟩] ∧
      (m.layout ⟨60, 30⟩ f {}).frame = ⟨[27, 13, 5, 13], [0, 0, 40]⟩ ∧
      (m.layout ⟨60, 30⟩ f {}).bounds.bottom ≤ 2147483647 ∧
      ∃ first row, (m.layout ⟨60, 30⟩ f {}).Bracketed m.subroutines first row := by
  intro source f
  have h : (ofProgram source).toOption.map (fun m =>
      let l := m.layout ⟨60, 30⟩ f {}
      (m.subroutines, l.frame, l.bounds.bottom)) =
        some ([⟨"a".toList, 3, 0, 2⟩, ⟨"b".toList, 1, 2, 3⟩],
          ⟨[27, 13, 5, 13], [0, 0, 40]⟩, 40) := by
    decide +kernel
  obtain ⟨m, hm, hlayout⟩ := Option.map_eq_some_iff.1 h
  simp only [Prod.mk.injEq] at hlayout
  obtain ⟨hsubroutines, hframe, hbottom⟩ := hlayout
  have hm := toOption_eq_some.1 hm
  have hmax : (m.layout ⟨60, 30⟩ f {}).bounds.bottom ≤ 2147483647 := by omega
  have hne : m.subroutines ≠ [] := by simp [hsubroutines]
  have hbrackets := brackets_layout hm hne (f := f) (s := {}) (by decide) (by decide) (by decide)
  exact ⟨m, hm, hsubroutines, hframe, hmax, (hbrackets ⟨60, 30⟩).1 hmax⟩

end Brackets

end Circuit

end QuantumDiagram
