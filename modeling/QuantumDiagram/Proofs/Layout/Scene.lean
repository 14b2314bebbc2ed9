import QuantumDiagram.Proofs.Channel.Rows
import QuantumDiagram.Proofs.Layout.Division

/-!
# Rows and columns of a scene

In every division of a surface, the scene of a circuit has a row for each visible channel
(`Scene.map_channel_rows`) and a column for each column of the circuit (`Scene.map_index_columns`):
the frame has enough widths and heights. So a circuit that has a qubit has lines to draw just if it
has a column (`Circuit.segments_eq_nil_iff`).
-/

namespace QuantumDiagram

namespace Circuit.Division

variable {m : Circuit} {surface : Size} {f : TextMetrics} {s : LayoutSettings}
  (d : m.Division surface f s)

theorem length_visibleRows_le : m.visibleRows.length ≤ d.frame.heights.length := by
  rw [← d.length_heights, frame, List.length_append]
  omega

end Circuit.Division

/-! ## The scene -/

namespace Scene

section Division

variable {m : Circuit} {surface : Size} {f : TextMetrics} {s : LayoutSettings}
  (d : m.Division surface f s)

theorem map_channel_rows : d.scene.rows.map Row.channel = m.visibleRows := by
  unfold rows
  rw [← List.map_uncurry_zip_eq_zipWith, List.map_map]
  apply List.map_fst_zip
  show m.visibleRows.length ≤ (bandsFrom 0 d.frame.heights).length
  rw [length_bandsFrom]
  exact d.length_visibleRows_le

theorem map_index_columns : d.scene.columns.map Column.index = List.range m.columns := by
  unfold columns
  rw [← List.map_uncurry_zip_eq_zipWith, List.map_map]
  apply List.map_fst_zip
  show (List.range m.columns).length ≤ (bandsFrom 0 d.widths).tail.length
  rw [List.length_tail, length_bandsFrom, d.length_widths, List.length_range]
  omega

end Division

/-- A wire meets its label and something in every column, so that it has a piece. -/
theorem wire_ne_nil (s : Scene) {columns : List Column} (h : columns ≠ []) (row : Row) :
    s.wire columns row ≠ [] := by
  cases columns with
  | nil => exact absurd rfl h
  | cons column columns =>
    rw [wire, List.map_cons, List.cons_append, piecesBetween_cons_cons]
    exact List.cons_ne_nil _ _

/-- Without columns there is nothing between the labels and the right edge. -/
theorem wire_nil (s : Scene) (row : Row) : s.wire [] row = [] := by
  simp [wire]

end Scene

namespace Circuit

theorem qubit_mem_visibleRows {m : Circuit} {q : Nat} (hq : q < m.qubits) :
    .qubit q ∈ m.visibleRows := by
  have hchannel : Channel.qubit q ∈ m.channels := Channel.mem_all.2 hq
  exact List.mem_filter.2 ⟨hchannel, by simp [Channel.isClassical]⟩

theorem segments_eq_nil_iff {m : Circuit} (hm : 0 < m.qubits) (surface : Size) (f : TextMetrics)
    (s : LayoutSettings) : (m.layout surface f s).segments = [] ↔ m.columns = 0 := by
  let scene := m.scene surface f s
  have hcolumns : scene.columns.map Scene.Column.index = List.range m.columns :=
    Scene.map_index_columns (Division.exact m surface f s)
  show scene.wires ++ scene.connectors = [] ↔ m.columns = 0
  constructor
  · intro h
    have hwires : scene.wires = [] := (List.append_eq_nil_iff.1 h).1
    obtain ⟨row, hrow, -⟩ : ∃ row ∈ scene.rows, row.channel = .qubit 0 := by
      have hmem := qubit_mem_visibleRows hm
      rw [← Scene.map_channel_rows (Division.exact m surface f s)] at hmem
      exact List.mem_map.1 hmem
    cases hsome : scene.columns with
    | nil =>
      rw [hsome] at hcolumns
      exact List.range_eq_nil.1 hcolumns.symm
    | cons column columns =>
      have hwire : scene.wire scene.columns row = [] := List.flatMap_eq_nil_iff.1 hwires row hrow
      exact absurd hwire (scene.wire_ne_nil (by simp [hsome]) row)
  · intro h
    rw [h, List.range_zero] at hcolumns
    have hnil : scene.columns = [] := List.map_eq_nil_iff.1 hcolumns
    have hwires : scene.wires = [] := by
      rw [Scene.wires, hnil]
      exact List.flatMap_eq_nil_iff.2 fun row _ => scene.wire_nil row
    rw [hwires, Scene.connectors, hnil]
    rfl

end Circuit

end QuantumDiagram
