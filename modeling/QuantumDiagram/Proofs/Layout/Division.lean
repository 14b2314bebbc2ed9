import Mathlib.Data.Rat.Floor
import QuantumDiagram.Layout

/-!
# Divisions of a surface

However the shares of a surface are computed, exactly or with rounded quotients and sums
(`Arithmetic`), there is a width for the labels and for each column and a height for each visible
row, and none of them is negative. That is a division of the surface (`Circuit.Division`). What the
layout has in every division, it has with exact shares and in any arithmetic
(`Circuit.Division.forall_layout`).
-/

namespace QuantumDiagram

/-! ## Shares -/

/-- A number without its fraction. -/
def truncate (q : ℚ) : Int := if 0 ≤ q then ⌊q⌋ else ⌈q⌉

/-- Arithmetic in which quotients and sums do not get smaller when what is divided or added gets
larger. -/
structure Arithmetic where
  /-- A length divided by a number of entries. -/
  quotient : Int → Nat → ℚ
  /-- A least size and a share. -/
  sum : Int → ℚ → ℚ
  quotient_le (count : Nat) {n n' : Int} : n ≤ n' → quotient n count ≤ quotient n' count
  sum_le (least : Int) {share share' : ℚ} : share ≤ share' → sum least share ≤ sum least share'

/-- Divides `available` among entries with the given least sizes, in the given arithmetic. -/
def distributeBy (a : Arithmetic) (minimums : List Int) (available : Int) : List Int :=
  let share := a.quotient (saturate (available - total minimums)) minimums.length
  minimums.map fun least => max 0 (saturate (truncate (a.sum least share)))

section Shares

variable (a : Arithmetic) {minimums : List Int} {available n : Int}

theorem length_distribute : (distribute minimums available).length = minimums.length := by
  simp [distribute]

theorem length_distributeBy : (distributeBy a minimums available).length = minimums.length := by
  simp [distributeBy]

theorem nonneg_of_mem_distribute (h : n ∈ distribute minimums available) : 0 ≤ n := by
  obtain ⟨least, -, rfl⟩ := List.mem_map.1 h
  exact Int.le_max_left 0 _

theorem nonneg_of_mem_distributeBy (h : n ∈ distributeBy a minimums available) : 0 ≤ n := by
  obtain ⟨least, -, rfl⟩ := List.mem_map.1 h
  exact Int.le_max_left 0 _

end Shares

namespace Circuit

section LeastSizes

variable (m : Circuit) (f : TextMetrics) (s : LayoutSettings)

theorem length_minWidths : (m.minWidths f s).length = m.columns + 1 := by
  simp [minWidths]

theorem length_minHeights : (m.minHeights f s).length = m.visibleRows.length := by
  simp [minHeights]

end LeastSizes

/-! ## Layouts in any arithmetic -/

section Arithmetics

variable (a : Arithmetic) (m : Circuit) (surface : Size) (f : TextMetrics) (s : LayoutSettings)

/-- The frame of the circuit, computed in the given arithmetic. -/
def frameBy : Frame :=
  let captions := m.labelRowHeight f s
  { widths := distributeBy a (m.minWidths f s) surface.width
    heights := distributeBy a (m.minHeights f s) (saturate (surface.height - captions)) ++
      if 0 < captions then [captions] else [] }

/-- The scene of the circuit, computed in the given arithmetic. -/
def sceneBy : Scene := ⟨m, m.frameBy a (drawable surface) f s, f, s⟩

/-- The layout of the circuit, computed in the given arithmetic. -/
def layoutBy : Layout :=
  let scene := m.sceneBy a surface f s
  { m.layout surface f s with
    frame := scene.frame
    labels := scene.labels
    elements := scene.elements
    segments := scene.wires ++ scene.connectors
    brackets := scene.brackets }

end Arithmetics

/-! ## Divisions -/

/-- A division of the surface: widths for the labels and the columns, and heights for the visible
rows. None of them is negative. -/
structure Division (m : Circuit) (surface : Size) (f : TextMetrics) (s : LayoutSettings) where
  widths : List Int
  heights : List Int
  length_widths : widths.length = m.columns + 1
  length_heights : heights.length = m.visibleRows.length
  nonneg_widths : ∀ n ∈ widths, 0 ≤ n
  nonneg_heights : ∀ n ∈ heights, 0 ≤ n

namespace Division

variable {m : Circuit} {surface : Size} {f : TextMetrics} {s : LayoutSettings}

/-- The frame of the division, with the row of captions if there is one. -/
def frame (d : m.Division surface f s) : Frame where
  widths := d.widths
  heights := d.heights ++ if 0 < m.labelRowHeight f s then [m.labelRowHeight f s] else []

/-- The scene in the frame of the division. -/
def scene (d : m.Division surface f s) : Scene := ⟨m, d.frame, f, s⟩

/-- The layout in the frame of the division. -/
def layout (d : m.Division surface f s) : Layout :=
  { m.layout surface f s with
    frame := d.frame
    labels := d.scene.labels
    elements := d.scene.elements
    segments := d.scene.wires ++ d.scene.connectors
    brackets := d.scene.brackets }

variable (m surface f s)

/-- The division into exact shares. -/
def exact : m.Division surface f s where
  widths := distribute (m.minWidths f s) (drawable surface).width
  heights := distribute (m.minHeights f s)
    (saturate ((drawable surface).height - m.labelRowHeight f s))
  length_widths := length_distribute.trans (m.length_minWidths f s)
  length_heights := length_distribute.trans (m.length_minHeights f s)
  nonneg_widths _ h := nonneg_of_mem_distribute h
  nonneg_heights _ h := nonneg_of_mem_distribute h

/-- The division into shares that are computed in the given arithmetic. -/
def inArithmetic (a : Arithmetic) : m.Division surface f s where
  widths := distributeBy a (m.minWidths f s) (drawable surface).width
  heights := distributeBy a (m.minHeights f s)
    (saturate ((drawable surface).height - m.labelRowHeight f s))
  length_widths := (length_distributeBy a).trans (m.length_minWidths f s)
  length_heights := (length_distributeBy a).trans (m.length_minHeights f s)
  nonneg_widths _ h := nonneg_of_mem_distributeBy a h
  nonneg_heights _ h := nonneg_of_mem_distributeBy a h

theorem layout_exact : (exact m surface f s).layout = m.layout surface f s := rfl

theorem layout_inArithmetic (a : Arithmetic) :
    (inArithmetic m surface f s a).layout = m.layoutBy a surface f s := rfl

variable {m surface f s}

/-- What the layout has in every division, it has whether the shares are computed exactly or in any
arithmetic. -/
theorem forall_layout (P : Layout → Prop) (h : ∀ d : m.Division surface f s, P d.layout) :
    P (m.layout surface f s) ∧ ∀ a : Arithmetic, P (m.layoutBy a surface f s) := by
  refine ⟨?_, fun a => ?_⟩
  · rw [← layout_exact]
    exact h _
  · rw [← layout_inArithmetic]
    exact h _

end Division

end Circuit

end QuantumDiagram
