import Mathlib.Data.List.Forall2
import QuantumDiagram.Proofs.Layout.LinesByPosition

/-!
# Layouts correspond to circuits

The layout of a program's circuit is the one that is computed by position, without a position out of
range (`Circuit.layoutByPosition?_eq`). In every division of the surface, its rows are the circuit's
qubits and the bits that hold a cell, and it has an element for each cell, in the cell's place
(`Layout.Corresponds`, `Circuit.layout_corresponds`).
-/

namespace QuantumDiagram

namespace Layout

/-- The element shows the instruction of a cell, in the cell's column and the row of its channel;
the column of labels is counted first. -/
structure Shows (l : Layout) (cell : Site × Instruction) (e : Element) : Prop where
  channel : e.channel = cell.1.channel
  column : e.column = cell.1.column
  gate : e.gate = cell.2.gate
  classicalControl : e.classicalControl = cell.2.classicalControl
  angle : e.angle = cell.2.angle
  glyph : e.glyph = cell.2.glyphAt cell.1.channel
  place : ∃ r, l.rows[r]? = some cell.1.channel ∧
    l.frame.cell? (cell.1.column + 1) r = some e.cell

/-- The rows of the layout are the qubits of the circuit and the bits that hold a cell, in the order
of channels, with a label each; its elements are those of the cells, in the order of the grid. -/
structure Corresponds (l : Layout) (m : Circuit) : Prop where
  ordered : l.rows.Pairwise fun c d => compare c d = .lt
  qubits : ∀ q, .qubit q ∈ l.rows ↔ q < m.qubits
  bits : ∀ b, .bit b ∈ l.rows ↔ ∃ k i, m.grid.get? (.bit b) k = some i
  labels : l.labels.map (·.channel) = l.rows
  elements : List.Forall₂ l.Shows m.grid.toList l.elements

end Layout

/-! ## Brackets by position -/

theorem Frame.span?_eq {frame : Frame} {start stop : Nat} (h : start < stop)
    (hstop : stop ≤ frame.widths.length) :
    frame.span? start stop = some (frame.columnSpan start stop) := by
  have hstart : start < frame.widths.length := Nat.lt_of_lt_of_le h hstop
  have hband : frame.columns[start]? =
      some ⟨0 + total (frame.widths.take start), frame.widths[start]⟩ := by
    rw [columns, getElem?_bandsFrom, List.getElem?_eq_getElem hstart]
    rfl
  rw [span?, Nat.min_eq_left hstop, Nat.min_eq_left (Nat.le_of_lt h), hband]
  simp only [if_pos (And.intro (Nat.le_of_lt h) hstop), Option.elim_some, Int.zero_add, columnSpan]

namespace Circuit

section ByPosition

variable {source : Text} {m : Circuit} (h : ofProgram source = .ok m) {surface : Size}
  {f : TextMetrics} {s : LayoutSettings}
include h

theorem bracketsByPosition?_eq (d : m.Division surface f s) :
    m.bracketsByPosition? f s d.scene.frame = some d.scene.brackets := by
  let frame := d.scene.frame
  have hrows : frame.rows.length = frame.heights.length := length_bandsFrom 0 frame.heights
  have hcaptions : d.scene.captionBand? = frame.rows[m.visibleRows.length]? := rfl
  rw [bracketsByPosition?, Scene.brackets, hcaptions]
  by_cases hnone : m.subroutines.isEmpty ∨ frame.heights.length ≤ m.visibleRows.length
  · rw [if_pos hnone]
    rcases hnone with hempty | hle
    · have hsubroutines : d.scene.circuit.subroutines = [] := List.isEmpty_iff.1 hempty
      rw [hsubroutines]
      cases frame.rows[m.visibleRows.length]? <;> rfl
    · rw [List.getElem?_eq_none (hrows ▸ hle)]
  · have hlt : m.visibleRows.length < frame.heights.length :=
      Nat.lt_of_not_le fun hle => hnone (.inr hle)
    have hrow := List.getElem?_eq_getElem (hrows ▸ hlt)
    have hheight : frame.heights[0]? = some (frame.heights.headD 0) := by
      cases hheights : frame.heights with
      | nil =>
        rw [hheights] at hlt
        cases hlt
      | cons height heights => rfl
    rw [if_neg hnone]
    show (frame.rows[m.visibleRows.length]?).bind _ = _
    rw [hrow, Option.bind_some]
    show (frame.heights[0]?).bind _ = _
    rw [hheight, Option.bind_some]
    refine mapM_eq_some fun sub hsub => ?_
    obtain ⟨hstart, hstop⟩ := bounds_of_mem_subroutines h hsub
    have hspan : frame.span? (sub.start + 1) (sub.stop + 1) =
        some (frame.columnSpan (sub.start + 1) (sub.stop + 1)) := by
      have hwidths : frame.widths.length = m.columns + 1 := d.length_widths
      exact Frame.span?_eq (Nat.succ_lt_succ hstart) (hwidths ▸ Nat.succ_le_succ hstop)
    show (frame.span? (sub.start + 1) (sub.stop + 1)).bind _ = _
    rw [hspan]
    rfl

/-- **No position is out of range** when the layout of a program's circuit is computed. -/
theorem layoutByPosition?_eq (surface : Size) (f : TextMetrics) (s : LayoutSettings) :
    m.layoutByPosition? f s surface = some (m.layout surface f s) := by
  let d := Division.exact m surface f s
  rw [layoutByPosition?, leastWidths_eq h, leastHeights_eq]
  show (m.labelsByPosition? f d.scene.frame).bind _ = _
  rw [labelsByPosition?_eq]
  show (m.elementsByPosition? f s d.scene.frame).bind _ = _
  rw [elementsByPosition?_eq h]
  show (m.wiresByPosition? d.scene.frame d.scene.labels d.scene.elements).bind _ = _
  rw [wiresByPosition?_eq]
  show (m.connectorsByPosition? d.scene.frame d.scene.elements).bind _ = _
  rw [connectorsByPosition?_eq d h]
  show (m.bracketsByPosition? f s d.scene.frame).bind _ = _
  rw [bracketsByPosition?_eq h]
  rfl

end ByPosition

/-! ## Rows and elements -/

section Elements

variable {source : Text} {m : Circuit} (h : ofProgram source = .ok m) {surface : Size}
  {f : TextMetrics} {s : LayoutSettings} (d : m.Division surface f s)
include h

/-- The cells of the grid and the elements of the layout, one by one. -/
theorem shows_elements : List.Forall₂ d.layout.Shows m.grid.toList d.layout.elements := by
  let pairs := d.scene.rows.flatMap fun row => d.scene.columns.filterMap fun column =>
    (m.grid.get? row.channel column.index).map fun i =>
      (((⟨row.channel, column.index⟩, i) : Site × Instruction),
        Element.ofInstruction f s (.ofBands column.band row.band) ⟨row.channel, column.index⟩ i)
  have hcells : pairs.map Prod.fst = m.grid.toList := by
    rw [toList_grid h, ← Scene.map_channel_rows d, List.flatMap_map, List.map_flatMap]
    refine List.flatMap_congr fun row _ => ?_
    rw [rowCells, ← Scene.map_index_columns d, List.filterMap_map, List.map_filterMap]
    exact List.filterMap_congr fun column _ => Option.map_map ..
  have helements : pairs.map Prod.snd = d.layout.elements := by
    show _ = d.scene.rows.flatMap fun row => d.scene.columns.filterMap (d.scene.element? row)
    rw [List.map_flatMap]
    refine List.flatMap_congr fun row _ => ?_
    rw [List.map_filterMap]
    exact List.filterMap_congr fun column _ => Option.map_map ..
  rw [← hcells, ← helements, List.forall₂_map_left_iff, List.forall₂_map_right_iff,
    List.forall₂_same]
  intro pair hpair
  obtain ⟨row, hrow, hpair⟩ := List.mem_flatMap.1 hpair
  obtain ⟨column, hcolumn, hpair⟩ := List.mem_filterMap.1 hpair
  obtain ⟨i, -, rfl⟩ := Option.map_eq_some_iff.1 hpair
  refine ⟨rfl, rfl, rfl, rfl, rfl, rfl, ?_⟩
  obtain ⟨r, hr⟩ := List.mem_iff_getElem?.1 hrow
  exact ⟨r, (Scene.getElem?_rows.1 hr).1, Scene.cell?_eq (Scene.getElem?_index hcolumn) hr⟩

theorem Division.corresponds : d.layout.Corresponds m where
  ordered := m.pairwise_visibleRows
  qubits q :=
    mem_visibleRows.trans ⟨fun hq => hq.1, fun hq => ⟨hq, fun hbit => by cases hbit⟩⟩
  bits b := by
    refine mem_visibleRows.trans ⟨fun hb => hb.2 rfl, fun hcell => ?_⟩
    obtain ⟨k, i, hi⟩ := hcell
    exact mem_visibleRows.1 (visible_of_ofProgram h hi).1
  labels := Layout.map_channel_labels d
  elements := shows_elements h d

end Elements

/-- **The layout corresponds to the circuit**, whether the shares are computed exactly or in any
arithmetic. Computed by position it never gets out of range. -/
theorem layout_corresponds {source : Text} {m : Circuit} (h : ofProgram source = .ok m)
    (surface : Size) (f : TextMetrics) (s : LayoutSettings) :
    m.layoutByPosition? f s surface = some (m.layout surface f s) ∧
      (m.layout surface f s).Corresponds m ∧
      ∀ a : Arithmetic, (m.layoutBy a surface f s).Corresponds m :=
  ⟨layoutByPosition?_eq h surface f s,
    Division.forall_layout (·.Corresponds m) fun d => d.corresponds h⟩

/-- A subroutine, a bit that holds a cell and one that does not, on a surface without any width. -/
theorem layout_corresponds_hidden :
    let source := "qubits 2\n.a(2)\n h q0\n measure q1".toList
    let f := FontMetrics.toTextMetrics ⟨10, 20⟩
    ∃ m, ofProgram source = .ok m ∧
      let l := m.layout ⟨-5, 30⟩ f {}
      l.rows = [.qubit 0, .qubit 1, .bit 1] ∧ l.brackets.length = 1 ∧
        m.layoutByPosition? f {} ⟨-5, 30⟩ = some l ∧ l.Corresponds m ∧
        ∀ a : Arithmetic, (m.layoutBy a ⟨-5, 30⟩ f {}).Corresponds m := by
  intro source f
  have h : (ofProgram source).toOption.map (fun m =>
      let l := m.layout ⟨-5, 30⟩ f {}
      (l.rows, l.brackets.length)) = some ([.qubit 0, .qubit 1, .bit 1], 1) := by
    decide +kernel
  obtain ⟨m, hm, hlayout⟩ := Option.map_eq_some_iff.1 h
  obtain ⟨hrows, hbrackets⟩ := Prod.mk.inj hlayout
  have hm := toOption_eq_some.1 hm
  exact ⟨m, hm, hrows, hbrackets, layout_corresponds hm ⟨-5, 30⟩ f {}⟩

end Circuit

end QuantumDiagram
