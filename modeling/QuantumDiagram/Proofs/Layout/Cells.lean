import Mathlib.Data.List.Sort
import QuantumDiagram.Proofs.Circuit.Consistency
import QuantumDiagram.Proofs.Circuit.Density
import QuantumDiagram.Proofs.Layout.Frame

/-!
# Cells and elements

The visible rows of a circuit are in the order of channels (`Circuit.pairwise_visibleRows`). Every
cell of a program's circuit is in one of these rows and in one of the columns
(`Circuit.visible_of_ofProgram`), so the cells, in their order, are those of one row after the other
(`Circuit.toList_grid`). A layout has one element for each of them: the element of a channel in a
column is that of the cell there (`Layout.element?_eq`).
-/

namespace QuantumDiagram

/-! ## The order of sites -/

theorem Site.compare_eq_lt {s t : Site} : compare s t = .lt ↔
    compare s.channel t.channel = .lt ∨ (s.channel = t.channel ∧ s.column < t.column) := by
  show (compare s.channel t.channel).then (compare s.column t.column) = .lt ↔ _
  rw [Ordering.then_eq_lt, Std.LawfulEqOrd.compare_eq_iff_eq, Nat.compare_eq_lt]

/-- Lists of cells in the order of sites are equal if they have the same members. -/
theorem eq_of_pairwise_site {l l' : List (Site × Instruction)}
    (hl : l.Pairwise fun x y => compare x.1 y.1 = .lt)
    (hl' : l'.Pairwise fun x y => compare x.1 y.1 = .lt) (h : ∀ x, x ∈ l ↔ x ∈ l') : l = l' := by
  have hne {x y : Site × Instruction} (hlt : compare x.1 y.1 = .lt) : x ≠ y := by
    rintro rfl
    simp at hlt
  have hperm : l.Perm l' := (List.perm_ext_iff_of_nodup (hl.imp hne) (hl'.imp hne)).2 h
  refine hperm.eq_of_pairwise (fun x y _ _ hxy hyx => ?_) hl hl'
  rw [Std.OrientedCmp.gt_of_lt hxy] at hyx
  cases hyx

namespace Circuit

/-! ## Visible rows -/

theorem pairwise_visibleRows (m : Circuit) :
    m.visibleRows.Pairwise fun c d => compare c d = .lt :=
  (Channel.pairwise_all m.qubits).filter _

theorem nodup_visibleRows (m : Circuit) : m.visibleRows.Nodup :=
  m.pairwise_visibleRows.imp Channel.ne_of_lt

theorem mem_visibleRows {m : Circuit} {c : Channel} : c ∈ m.visibleRows ↔
    c.index < m.qubits ∧ (c.isClassical = true → ∃ k i, m.grid.get? c k = some i) := by
  simp only [visibleRows, List.mem_filter, channels, Channel.mem_all, Bool.or_eq_true,
    Bool.not_eq_true', Std.ExtTreeMap.contains_iff_mem, Grid.mem_rows]
  cases c.isClassical <;> simp

theorem visible_of_ofProgram {source : Text} {m : Circuit} (h : ofProgram source = .ok m)
    {c : Channel} {k : Nat} {i : Instruction} (hi : m.grid.get? c k = some i) :
    c ∈ m.visibleRows ∧ k < m.columns := by
  have hconsistent := consistent_ofProgram h
  refine ⟨mem_visibleRows.2 ⟨?_, fun _ => ⟨k, i, hi⟩⟩, (fillsTo_ofProgram h k).1 ⟨c, i, hi⟩⟩
  exact (hconsistent.fits hi).declared c (hconsistent.mem hi)

/-! ## Cells by row -/

/-- The cells of a channel, by column. -/
def rowCells (m : Circuit) (c : Channel) : List (Site × Instruction) :=
  (List.range m.columns).filterMap fun k => (m.grid.get? c k).map (⟨c, k⟩, ·)

theorem mem_rowCells {m : Circuit} {c : Channel} {x : Site × Instruction} :
    x ∈ m.rowCells c ↔
      x.1.channel = c ∧ x.1.column < m.columns ∧ m.grid.get? c x.1.column = some x.2 := by
  simp only [rowCells, List.mem_filterMap, List.mem_range, Option.map_eq_some_iff]
  constructor
  · rintro ⟨k, hk, i, hi, rfl⟩
    exact ⟨rfl, hk, hi⟩
  · obtain ⟨⟨d, k⟩, i⟩ := x
    rintro ⟨rfl, hk, hi⟩
    exact ⟨k, hk, i, hi, rfl⟩

theorem pairwise_rowCells (m : Circuit) (c : Channel) :
    (m.rowCells c).Pairwise fun x y => compare x.1 y.1 = .lt := by
  refine List.pairwise_filterMap.2 (List.pairwise_lt_range.imp fun hlt x hx y hy => ?_)
  obtain ⟨i, -, rfl⟩ := Option.map_eq_some_iff.1 hx
  obtain ⟨j, -, rfl⟩ := Option.map_eq_some_iff.1 hy
  exact Site.compare_eq_lt.2 (.inr ⟨rfl, hlt⟩)

/-- The grid sorts the same cells into a row. -/
theorem getD_rows_grid {source : Text} {m : Circuit} (h : ofProgram source = .ok m) (c : Channel) :
    m.grid.rows.getD c [] = m.rowCells c := by
  rw [Grid.getD_rows]
  refine eq_of_pairwise_site ?sorted (m.pairwise_rowCells c) fun x => ?members
  case sorted => exact List.Pairwise.filter _ Std.ExtTreeMap.ordered_keys_toList
  case members =>
    rw [List.mem_filter, mem_rowCells, decide_eq_true_eq]
    constructor
    · rintro ⟨hx, rfl⟩
      have hi := Grid.mem_toList.1 hx
      exact ⟨rfl, (visible_of_ofProgram h hi).2, hi⟩
    · rintro ⟨rfl, -, hi⟩
      exact ⟨Grid.mem_toList.2 hi, rfl⟩

/-- **The cells of a circuit are those of its visible rows**, one row after the other. -/
theorem toList_grid {source : Text} {m : Circuit} (h : ofProgram source = .ok m) :
    m.grid.toList = m.visibleRows.flatMap m.rowCells := by
  refine eq_of_pairwise_site Std.ExtTreeMap.ordered_keys_toList ?sorted fun x => ?members
  case sorted =>
    refine List.pairwise_flatMap.2 ⟨fun c _ => m.pairwise_rowCells c,
      m.pairwise_visibleRows.imp fun hlt x hx y hy => ?_⟩
    obtain ⟨rfl, -, -⟩ := mem_rowCells.1 hx
    obtain ⟨rfl, -, -⟩ := mem_rowCells.1 hy
    exact Site.compare_eq_lt.2 (.inl hlt)
  case members =>
    simp only [List.mem_flatMap, mem_rowCells]
    constructor
    · intro hx
      have hi := Grid.mem_toList.1 hx
      obtain ⟨hrow, hcolumn⟩ := visible_of_ofProgram h hi
      exact ⟨x.1.channel, hrow, rfl, hcolumn, hi⟩
    · rintro ⟨c, -, rfl, -, hi⟩
      exact Grid.mem_toList.2 hi

end Circuit

/-! ## The elements of a layout -/

namespace Scene

section Elements

variable {m : Circuit} {surface : Size} {f : TextMetrics} {s : LayoutSettings}
  {d : m.Division surface f s} {row row' : Row} {column column' : Column}

theorem eq_of_channel_eq (h : row ∈ d.scene.rows) (h' : row' ∈ d.scene.rows)
    (heq : row.channel = row'.channel) : row = row' := by
  refine List.inj_on_of_nodup_map ?_ h h' heq
  rw [map_channel_rows]
  exact m.nodup_visibleRows

theorem eq_of_index_eq (h : column ∈ d.scene.columns) (h' : column' ∈ d.scene.columns)
    (heq : column.index = column'.index) : column = column' := by
  refine List.inj_on_of_nodup_map ?_ h h' heq
  rw [map_index_columns]
  exact List.nodup_range

theorem site_of_element? {s : Scene} {e : Element} (h : s.element? row column = some e) :
    e.channel = row.channel ∧ e.column = column.index := by
  obtain ⟨i, -, rfl⟩ := element?_eq_some.1 h
  exact ⟨rfl, rfl⟩

theorem mem_elements {s : Scene} {e : Element} : e ∈ s.elements ↔
    ∃ row ∈ s.rows, ∃ column ∈ s.columns, s.element? row column = some e := by
  simp only [elements, List.mem_flatMap, List.mem_filterMap]

end Elements

end Scene

namespace Layout

/-- There is one label for each row. -/
theorem map_channel_labels {m : Circuit} {surface : Size} {f : TextMetrics} {s : LayoutSettings}
    (d : m.Division surface f s) : d.layout.labels.map (·.channel) = d.layout.rows := by
  show (d.scene.rows.map d.scene.label).map _ = m.visibleRows
  rw [List.map_map]
  exact Scene.map_channel_rows d

section Elements

variable {m : Circuit} {surface : Size} {f : TextMetrics} {s : LayoutSettings}
  {d : m.Division surface f s} {row : Scene.Row} {column : Scene.Column}

/-- The layout finds in a row and a column what the scene puts there. -/
theorem element?_eq (hrow : row ∈ d.scene.rows) (hcolumn : column ∈ d.scene.columns) :
    d.layout.element? row.channel column.index = d.scene.element? row column := by
  -- An element at this site can only come from this row and this column.
  have horigin (e : Element) (he : e ∈ d.scene.elements)
      (hsite : e.channel = row.channel ∧ e.column = column.index) :
      d.scene.element? row column = some e := by
    obtain ⟨row', hrow', column', hcolumn', he⟩ := Scene.mem_elements.1 he
    obtain ⟨hchannel, hindex⟩ := Scene.site_of_element? he
    rwa [Scene.eq_of_channel_eq hrow hrow' (hsite.1.symm.trans hchannel),
      Scene.eq_of_index_eq hcolumn hcolumn' (hsite.2.symm.trans hindex)]
  show d.scene.elements.find? _ = _
  cases hfind : d.scene.elements.find?
      fun e => e.channel = row.channel && e.column = column.index with
  | some e =>
    have hsite := List.find?_some hfind
    simp only [Bool.and_eq_true, decide_eq_true_eq] at hsite
    exact (horigin e (List.mem_of_find?_eq_some hfind) hsite).symm
  | none =>
    cases he : d.scene.element? row column with
    | none => rfl
    | some e =>
      have hmem := Scene.mem_elements.2 ⟨row, hrow, column, hcolumn, he⟩
      have hsite := List.find?_eq_none.1 hfind e hmem
      simp [Scene.site_of_element? he] at hsite

/-- The elements that the layout finds in a row, by column. -/
theorem map_element? (hrow : row ∈ d.scene.rows) :
    (List.range m.columns).map (d.layout.element? row.channel) =
      d.scene.columns.map (d.scene.element? row) := by
  rw [← Scene.map_index_columns d, List.map_map]
  exact List.map_congr_left fun column hcolumn => element?_eq hrow hcolumn

/-- The elements of a row come in the order of columns. -/
theorem filter_elements (hrow : row ∈ d.scene.rows) :
    d.layout.elements.filter (·.channel = row.channel) =
      (List.range m.columns).filterMap (d.layout.element? row.channel) := by
  let scene := d.scene
  have hown : (scene.columns.filterMap (scene.element? row)).filter (·.channel = row.channel) =
      scene.columns.filterMap (scene.element? row) := by
    refine List.filter_eq_self.2 fun e he => ?_
    obtain ⟨column, -, he⟩ := List.mem_filterMap.1 he
    exact decide_eq_true (Scene.site_of_element? he).1
  have hother (rows : List Scene.Row) (hne : row.channel ∉ rows.map Scene.Row.channel) :
      (rows.flatMap fun r => scene.columns.filterMap (scene.element? r)).filter
        (·.channel = row.channel) = [] := by
    refine List.filter_eq_nil_iff.2 fun e he heq => ?_
    obtain ⟨r, hr, he⟩ := List.mem_flatMap.1 he
    obtain ⟨column, -, he⟩ := List.mem_filterMap.1 he
    rw [decide_eq_true_eq, (Scene.site_of_element? he).1] at heq
    exact hne (heq ▸ List.mem_map_of_mem hr)
  have hnodup := m.nodup_visibleRows
  obtain ⟨above, below, hsplit⟩ := List.append_of_mem hrow
  rw [← Scene.map_channel_rows d, hsplit, List.map_append, List.map_cons,
    List.nodup_middle, List.nodup_cons, List.mem_append, not_or] at hnodup
  calc d.layout.elements.filter (·.channel = row.channel)
      = (scene.rows.flatMap fun r => scene.columns.filterMap (scene.element? r)).filter
          (·.channel = row.channel) := rfl
    _ = scene.columns.filterMap (scene.element? row) := by
      rw [hsplit, List.flatMap_append, List.flatMap_cons, List.filter_append, List.filter_append,
        hown, hother above hnodup.1.1, hother below hnodup.1.2, List.nil_append, List.append_nil]
    _ = (List.range m.columns).filterMap (d.layout.element? row.channel) := by
      rw [← Scene.map_index_columns d, List.filterMap_map]
      exact List.filterMap_congr fun column hcolumn => (element?_eq hrow hcolumn).symm

end Elements

end Layout

end QuantumDiagram
