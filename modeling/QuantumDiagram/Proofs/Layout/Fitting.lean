import Mathlib.Algebra.Order.Floor.Ring
import Mathlib.Data.Rat.Floor
import QuantumDiagram.Proofs.Layout.Cells
import QuantumDiagram.Proofs.Outcome

/-!
# What fits is not squeezed

If the surface is large enough for the least sizes, every label and every element has the size that
it should have (`Layout.Unsqueezed`, `Circuit.unsqueezed_layout`). No column and no row gets less
than its least size, because what is left over is not negative. That does not need exact quotients:
it holds of every way of rounding them that keeps the order and the whole numbers (`Precision`).
-/

namespace QuantumDiagram

/-! ## Rounded shares -/

/-- How a computation rounds its quotients and sums. -/
structure Precision where
  round : ℚ → ℚ
  monotone : Monotone round
  /-- Whole numbers of 32 bits are kept. -/
  whole : ∀ n : Int, -2147483648 ≤ n → n ≤ 2147483647 → round n = n

/-- A computation that does not round. -/
def Precision.exact : Precision := ⟨id, monotone_id, fun _ _ _ => rfl⟩

/-- Divides `available` among entries with the given least sizes, with a rounded share and rounded
sums. -/
def distributeWith (p : Precision) (minimums : List Int) (available : Int) : List Int :=
  let leftover := saturate (available - total minimums)
  let share := p.round ((leftover : ℚ) / p.round (minimums.length : ℚ))
  minimums.map fun (least : Int) => max 0 (saturate (truncate (p.round ((least : ℚ) + share))))

theorem Precision.nonneg_round (p : Precision) {q : ℚ} (h : 0 ≤ q) : 0 ≤ p.round q := by
  have hzero := p.whole 0 (by decide) (by decide)
  rw [Int.cast_zero] at hzero
  rw [← hzero]
  exact p.monotone h

theorem truncate_div (a : Int) (b : Nat) : truncate (a / b) = a.tdiv b := by
  rcases Nat.eq_zero_or_pos b with rfl | hb
  · simp [truncate]
  have hb : (0 : ℚ) < b := by exact_mod_cast hb
  have hsign : 0 ≤ (a / b : ℚ) ↔ 0 ≤ a := by
    rw [le_div_iff₀ hb, zero_mul]
    exact_mod_cast Iff.rfl
  rw [truncate]
  by_cases ha : 0 ≤ a
  · rw [if_pos (hsign.2 ha), Rat.floor_intCast_div_natCast, Int.tdiv_eq_ediv_of_nonneg ha]
  · have hnegated : (-a).tdiv b = -a / b := Int.tdiv_eq_ediv_of_nonneg (by omega)
    have hdiv : a.tdiv b = -(-a / b) := by rw [← hnegated, Int.neg_tdiv, Int.neg_neg]
    rw [if_neg (mt hsign.1 ha), Rat.ceil_intCast_div_natCast, hdiv]

/-- Without rounding, the sizes are those of the frame. -/
theorem distributeWith_exact (minimums : List Int) (available : Int) :
    distributeWith .exact minimums available = distribute minimums available := by
  refine List.map_congr_left fun least hleast => ?_
  have hcount : (minimums.length : ℚ) ≠ 0 := by
    exact_mod_cast Nat.ne_of_gt (List.length_pos_of_mem hleast)
  have hsum : (least : ℚ) + (saturate (available - total minimums) : ℚ) / minimums.length =
      ((least * minimums.length + saturate (available - total minimums) : Int) : ℚ) /
        minimums.length := by
    push_cast
    rw [add_div, mul_div_cancel_right₀ _ hcount]
  show max 0 (saturate (truncate ((least : ℚ) + (saturate (available - total minimums) : ℚ) /
    (minimums.length : ℚ)))) = _
  rw [hsum, truncate_div]

theorem le_truncate {n : Int} {q : ℚ} (hn : 0 ≤ n) (h : n ≤ q) : n ≤ truncate q := by
  have hq : 0 ≤ q := le_trans (by exact_mod_cast hn) h
  rw [truncate, if_pos hq]
  exact Int.le_floor.2 h

theorem le_saturate {n k : Int} (h : n ≤ k) (hn : n ≤ 2147483647) : n ≤ saturate k := by
  unfold saturate
  omega

theorem le_total {n : Int} {ns : List Int} (h : ∀ k ∈ ns, 0 ≤ k) (hn : n ∈ ns) : n ≤ total ns := by
  have hnonneg (ks : List Int) (hks : ∀ k ∈ ks, 0 ≤ k) : 0 ≤ total ks := by
    induction ks with
    | nil => exact Int.le_refl 0
    | cons k ks ih =>
      rw [total_cons]
      exact Int.add_nonneg (hks k List.mem_cons_self) (ih fun j hj => hks j (.tail _ hj))
  induction ns with
  | nil => cases hn
  | cons k ns ih =>
    obtain ⟨hk, hns⟩ := List.forall_mem_cons.1 h
    rw [total_cons]
    rcases List.mem_cons.1 hn with rfl | hn
    · have := hnonneg ns hns
      omega
    · have := ih hns hn
      omega

/-- **If all least sizes fit, no entry gets less than its own**: its share is not negative, however
it is rounded. -/
theorem le_of_distributeWith (p : Precision) {minimums : List Int} {available : Int}
    (hnonneg : ∀ n ∈ minimums, 0 ≤ n) (hfits : total minimums ≤ available)
    (hmax : available ≤ 2147483647) {i : Nat} {least : Int} (h : minimums[i]? = some least) :
    ∃ size, (distributeWith p minimums available)[i]? = some size ∧ least ≤ size := by
  have hleast : 0 ≤ least := hnonneg least (List.mem_of_getElem? h)
  have hbound : least ≤ 2147483647 := by
    have := le_total hnonneg (List.mem_of_getElem? h)
    omega
  have hleftover : 0 ≤ saturate (available - total minimums) := by
    unfold saturate
    omega
  have hshare : 0 ≤ p.round ((saturate (available - total minimums) : ℚ) /
      p.round (minimums.length : ℚ)) :=
    p.nonneg_round (div_nonneg (by exact_mod_cast hleftover)
      (p.nonneg_round (Nat.cast_nonneg _)))
  refine ⟨_, by rw [distributeWith, List.getElem?_map, h]; rfl, ?_⟩
  have hsum : (least : ℚ) ≤ p.round ((least : ℚ) + p.round
      ((saturate (available - total minimums) : ℚ) / p.round (minimums.length : ℚ))) := by
    calc (least : ℚ) = p.round least := (p.whole least (by omega) hbound).symm
      _ ≤ _ := p.monotone (le_add_of_nonneg_right hshare)
  exact le_max_of_le_right (le_saturate (le_truncate hleast hsum) hbound)

/-! ## Layouts with rounded shares -/

namespace Circuit

section Rounded

variable (p : Precision) (m : Circuit) (surface : Size) (f : TextMetrics) (s : LayoutSettings)

/-- The frame of the circuit, with rounded shares. -/
def frameWith : Frame :=
  let captions := m.labelRowHeight f s
  { widths := distributeWith p (m.minWidths f s) surface.width
    heights := distributeWith p (m.minHeights f s) (saturate (surface.height - captions)) ++
      if 0 < captions then [captions] else [] }

/-- The layout of the circuit in the frame with rounded shares. -/
def layoutWith : Layout :=
  let scene : Scene := ⟨m, m.frameWith p (drawable surface) f s, f, s⟩
  { m.layout surface f s with
    frame := scene.frame
    labels := scene.labels
    elements := scene.elements
    segments := scene.wires ++ scene.connectors
    brackets := scene.brackets }

theorem layoutWith_exact : m.layoutWith .exact surface f s = m.layout surface f s := by
  have hframe : m.frameWith .exact (drawable surface) f s = m.frame (drawable surface) f s := by
    simp only [frameWith, frame, distributeWith_exact]
  unfold layoutWith
  rw [hframe]
  rfl

end Rounded

/-! ## Least sizes -/

section LeastSizes

theorem le_largest {n : Int} {sizes : List Int} (h : n ∈ 0 :: sizes) : n ≤ largest sizes := by
  have hfold (first : Int) : ∀ k ∈ first :: sizes, k ≤ sizes.foldl max first := by
    clear h
    induction sizes generalizing first with
    | nil => simp
    | cons size sizes ih =>
      intro k hk
      have hmax := ih (max first size)
      have hfirst := hmax _ List.mem_cons_self
      rw [List.foldl_cons]
      rcases List.mem_cons.1 hk with rfl | hk
      · omega
      rcases List.mem_cons.1 hk with rfl | hk
      · omega
      · exact hmax k (List.mem_cons_of_mem _ hk)
  exact hfold 0 n h

variable {m : Circuit} {f : TextMetrics} {s : LayoutSettings} {c : Channel} {k r : Nat}
  {i : Instruction}

theorem nonneg_of_mem_minWidths {n : Int} (h : n ∈ m.minWidths f s) : 0 ≤ n := by
  rcases List.mem_cons.1 h with rfl | h
  · exact le_largest List.mem_cons_self
  · obtain ⟨column, -, rfl⟩ := List.mem_map.1 h
    exact le_largest List.mem_cons_self

theorem nonneg_of_mem_minHeights {n : Int} (h : n ∈ m.minHeights f s) : 0 ≤ n := by
  obtain ⟨c, -, rfl⟩ := List.mem_map.1 h
  exact le_largest List.mem_cons_self

/-- The column of labels is wide enough for all labels. -/
theorem exists_minWidths_label (h : c ∈ m.visibleRows) :
    ∃ least, (m.minWidths f s)[0]? = some least ∧ 0 ≤ least ∧ f.textWidth (m.label c) ≤ least := by
  have hwidth : f.textWidth (m.label c) ∈ m.visibleRows.map fun c => f.textWidth (m.label c) :=
    List.mem_map.2 ⟨c, h, rfl⟩
  exact ⟨_, rfl, le_largest List.mem_cons_self, le_largest (List.mem_cons_of_mem _ hwidth)⟩

theorem exists_minWidths_cell (hk : k < m.columns) (hi : m.grid.get? c k = some i) :
    ∃ least, (m.minWidths f s)[k + 1]? = some least ∧ 0 ≤ least ∧
      ((i.glyphAt c).minSize f s).width ≤ least := by
  refine ⟨_, by rw [minWidths, List.getElem?_cons_succ, List.getElem?_map,
    List.getElem?_range hk]; rfl, le_largest List.mem_cons_self,
    le_largest (List.mem_cons_of_mem _ (List.mem_map.2 ⟨(k, ((i.glyphAt c).minSize f s).width), ?_,
      rfl⟩))⟩
  refine List.mem_filter.2 ⟨List.mem_map.2 ⟨(⟨c, k⟩, i), Grid.mem_toList.2 hi, rfl⟩, ?_⟩
  exact decide_eq_true rfl

theorem exists_minHeights_label (h : m.visibleRows[r]? = some c) :
    ∃ least, (m.minHeights f s)[r]? = some least ∧ 0 ≤ least ∧ f.lineHeight ≤ least := by
  refine ⟨_, by rw [minHeights, List.getElem?_map, h]; rfl, le_largest List.mem_cons_self,
    le_largest (List.mem_cons_of_mem _ List.mem_cons_self)⟩

theorem exists_minHeights_cell (h : m.visibleRows[r]? = some c) (hi : m.grid.get? c k = some i) :
    ∃ least, (m.minHeights f s)[r]? = some least ∧ 0 ≤ least ∧
      ((i.glyphAt c).minSize f s).height ≤ least := by
  have hrow : (⟨c, k⟩, i) ∈ (m.grid.rows.getD c []) := by
    rw [Grid.getD_rows, List.mem_filter]
    exact ⟨Grid.mem_toList.2 hi, decide_eq_true rfl⟩
  refine ⟨_, by rw [minHeights, List.getElem?_map, h]; rfl, le_largest List.mem_cons_self, ?_⟩
  exact le_largest (List.mem_cons_of_mem _ (List.mem_cons_of_mem _ (List.mem_map_of_mem hrow)))

end LeastSizes

end Circuit

/-! ## Enough room -/

namespace Frame

/-- Every column and every row is as large as it should at least be. -/
structure Roomy (frame : Frame) (widths heights : List Int) : Prop where
  width : ∀ {i : Nat} {least : Int}, widths[i]? = some least →
    ∃ size, frame.widths[i]? = some size ∧ least ≤ size
  height : ∀ {i : Nat} {least : Int}, heights[i]? = some least →
    ∃ size, frame.heights[i]? = some size ∧ least ≤ size

theorem length_of_getElem?_columns {frame : Frame} {i : Nat} {b : Band}
    (h : frame.columns[i]? = some b) : frame.widths[i]? = some b.length := by
  rw [columns, getElem?_bandsFrom, Option.map_eq_some_iff] at h
  obtain ⟨length, hlength, rfl⟩ := h
  exact hlength

theorem length_of_getElem?_rows {frame : Frame} {i : Nat} {b : Band}
    (h : frame.rows[i]? = some b) : frame.heights[i]? = some b.length := by
  rw [rows, getElem?_bandsFrom, Option.map_eq_some_iff] at h
  obtain ⟨length, hlength, rfl⟩ := h
  exact hlength

end Frame

namespace Layout

/-- The box has the given size, or none where that is negative, and a column of the frame and the
row of a channel are as large. -/
structure HasRoom (l : Layout) (b : Box) (size : Size) (column : Nat) (c : Channel) : Prop where
  width : b.width = max 0 size.width
  height : b.height = max 0 size.height
  column : ∃ length, l.frame.widths[column]? = some length ∧ b.width ≤ length
  row : ∃ (r : Nat) (length : Int), l.rows[r]? = some c ∧ l.frame.heights[r]? = some length ∧
    b.height ≤ length

/-- Every label and every element has the size that it should have, and there is room for it in its
column and its row. -/
structure Unsqueezed (l : Layout) (f : TextMetrics) (s : LayoutSettings) : Prop where
  label : ∀ label ∈ l.labels,
    l.HasRoom label.bounds ⟨f.textWidth label.text, f.lineHeight⟩ 0 label.channel
  element : ∀ e ∈ l.elements,
    l.HasRoom e.bounds (e.glyph.minSize f s) (e.column + 1) e.channel

variable {l : Layout} {size : Size} {k r : Nat} {c : Channel}

/-- What is in the middle of a large enough cell has its size. -/
theorem hasRoom_centered {column row : Band} {least least' : Int} (hc : l.rows[r]? = some c)
    (hcolumn : l.frame.widths[k]? = some column.length)
    (hrow : l.frame.heights[r]? = some row.length)
    (hwidth : 0 ≤ least ∧ size.width ≤ least) (hw : least ≤ column.length)
    (hheight : 0 ≤ least' ∧ size.height ≤ least') (hh : least' ≤ row.length) :
    l.HasRoom ((Box.ofBands column row).centered size.width size.height) size k c := by
  have hcentered : max 0 (min size.width column.length) = max 0 size.width := by omega
  have hcentered' : max 0 (min size.height row.length) = max 0 size.height := by omega
  refine ⟨hcentered, hcentered', ⟨column.length, hcolumn, ?_⟩, r, row.length, hc, hrow, ?_⟩
  · show max 0 (min size.width column.length) ≤ column.length
    omega
  · show max 0 (min size.height row.length) ≤ row.length
    omega

end Layout

namespace Scene

variable {m : Circuit} {frame : Frame} {f : TextMetrics} {s : LayoutSettings} {l : Layout}

theorem hasRoom_label (h : frame.Roomy (m.minWidths f s) (m.minHeights f s))
    (hframe : l.frame = frame) (hrows : l.rows = m.visibleRows) {row : Row}
    (hrow : row ∈ (Scene.mk m frame f s).rows) :
    l.HasRoom ((Scene.mk m frame f s).label row).bounds
      ⟨f.textWidth (m.label row.channel), f.lineHeight⟩ 0 row.channel := by
  subst hframe
  obtain ⟨r, hr⟩ := List.mem_iff_getElem?.1 hrow
  obtain ⟨hchannel, hband⟩ := getElem?_rows.1 hr
  have hheight := Frame.length_of_getElem?_rows hband
  obtain ⟨least, hleast, hw⟩ := m.exists_minWidths_label (f := f) (s := s)
    (List.mem_of_getElem? hchannel)
  obtain ⟨width, hwidth, hle⟩ := h.width hleast
  obtain ⟨least', hleast', hh⟩ := m.exists_minHeights_label (f := f) (s := s) hchannel
  obtain ⟨height, hheight', hle'⟩ := h.height hleast'
  obtain rfl := Option.some.inj (hheight'.symm.trans hheight)
  have hlabel : (Scene.mk m l.frame f s).labelBand.length = width := by
    show l.frame.widths.headD 0 = width
    rw [List.headD_eq_head?_getD, List.head?_eq_getElem?, hwidth]
    rfl
  rw [← hlabel] at hwidth hle
  have hc : l.rows[r]? = some row.channel := by rw [hrows, hchannel]
  let size : Size := ⟨f.textWidth (m.label row.channel), f.lineHeight⟩
  show l.HasRoom (Box.centered _ size.width size.height) size 0 row.channel
  exact Layout.hasRoom_centered hc hwidth hheight hw hle hh hle'

theorem hasRoom_element (h : frame.Roomy (m.minWidths f s) (m.minHeights f s))
    (hframe : l.frame = frame) (hrows : l.rows = m.visibleRows) {e : Element}
    (he : e ∈ (Scene.mk m frame f s).elements) :
    l.HasRoom e.bounds (e.glyph.minSize f s) (e.column + 1) e.channel := by
  subst hframe
  obtain ⟨row, hrow, column, hcolumn, he⟩ := mem_elements.1 he
  obtain ⟨r, hr⟩ := List.mem_iff_getElem?.1 hrow
  obtain ⟨hchannel, hband⟩ := getElem?_rows.1 hr
  obtain ⟨hk, -, hcolumnBand⟩ := getElem?_columns.1 (getElem?_index hcolumn)
  obtain ⟨i, hi, rfl⟩ := element?_eq_some.1 he
  have hwidth := Frame.length_of_getElem?_columns hcolumnBand
  have hheight := Frame.length_of_getElem?_rows hband
  obtain ⟨least, hleast, hw⟩ := m.exists_minWidths_cell (f := f) (s := s) hk hi
  obtain ⟨width, hwidth', hle⟩ := h.width hleast
  obtain ⟨least', hleast', hh⟩ := m.exists_minHeights_cell (f := f) (s := s) hchannel hi
  obtain ⟨height, hheight', hle'⟩ := h.height hleast'
  obtain rfl := Option.some.inj (hwidth'.symm.trans hwidth)
  obtain rfl := Option.some.inj (hheight'.symm.trans hheight)
  have hc : l.rows[r]? = some row.channel := by rw [hrows, hchannel]
  exact Layout.hasRoom_centered hc hwidth hheight hw hle hh hle'

end Scene

namespace Circuit

variable {m : Circuit} {surface : Size} {f : TextMetrics} {s : LayoutSettings}

/-- A surface that is not too small has room for the rows and columns. -/
theorem le_of_cramped?_eq_none (h : m.cramped? surface f s = none) :
    total (m.minWidths f s) ≤ (drawable surface).width ∧
      total (m.minHeights f s) + m.labelRowHeight f s ≤ (drawable surface).height := by
  unfold cramped? Cramped.check at h
  split at h
  · cases h
  · next hfits =>
    simp only [not_or, Int.not_lt] at hfits
    exact hfits.2.2

theorem roomy_frameWith (p : Precision) (hsurface : surface.width ≤ 2147483647)
    (hheights : total (m.minHeights f s) ≤ 2147483647) (h : m.cramped? surface f s = none) :
    (m.frameWith p (drawable surface) f s).Roomy (m.minWidths f s) (m.minHeights f s) := by
  obtain ⟨hw, hh⟩ := le_of_cramped?_eq_none h
  have hdrawable : (drawable surface).width ≤ 2147483647 := by
    show max 0 surface.width ≤ 2147483647
    omega
  constructor
  · intro i least hleast
    exact le_of_distributeWith p (fun _ => nonneg_of_mem_minWidths) hw hdrawable hleast
  · intro i least hleast
    -- The row of captions is taken away before the heights are shared out, and comes behind them.
    have hfits : total (m.minHeights f s) ≤
        saturate ((drawable surface).height - m.labelRowHeight f s) :=
      le_saturate (by omega) hheights
    have hmax : saturate ((drawable surface).height - m.labelRowHeight f s) ≤ 2147483647 := by
      unfold saturate
      omega
    obtain ⟨size, hsize, hle⟩ :=
      le_of_distributeWith p (fun _ => nonneg_of_mem_minHeights) hfits hmax hleast
    refine ⟨size, ?_, hle⟩
    rw [frameWith, List.getElem?_append_left (List.getElem?_eq_some_iff.1 hsize).1]
    exact hsize

/-- **On a large enough surface nothing is squeezed**, whether the shares are exact or rounded. -/
theorem unsqueezed_layout (hsurface : surface.width ≤ 2147483647)
    (hheights : total (m.minHeights f s) ≤ 2147483647)
    (h : (m.layout surface f s).cramped = none) :
    (m.layout surface f s).Unsqueezed f s ∧
      ∀ p : Precision, (m.layoutWith p surface f s).Unsqueezed f s := by
  have hrounded (p : Precision) : (m.layoutWith p surface f s).Unsqueezed f s := by
    have hroomy := roomy_frameWith p hsurface hheights h
    constructor
    · intro label hlabel
      obtain ⟨row, hrow, rfl⟩ := List.mem_map.1 hlabel
      exact Scene.hasRoom_label hroomy rfl rfl hrow
    · intro e he
      exact Scene.hasRoom_element hroomy rfl rfl he
  refine ⟨?_, hrounded⟩
  rw [← layoutWith_exact]
  exact hrounded .exact

/-- There are 16 units left over for three columns and 34 for three rows, above the row of the
subroutine's caption. -/
theorem unsqueezed_layout_caption :
    let source := "qubits 2\n.pair(3)\n cnot q0, q1\nmeasure q1".toList
    let f := FontMetrics.toTextMetrics ⟨10, 20⟩
    ∃ m, ofProgram source = .ok m ∧ total (m.minHeights f {}) ≤ 2147483647 ∧
      (m.layout ⟨100, 140⟩ f {}).cramped = none ∧
      (m.layout ⟨100, 140⟩ f {}).frame = ⟨[45, 23, 31], [31, 37, 31, 40]⟩ ∧
      (m.layout ⟨100, 140⟩ f {}).Unsqueezed f {} ∧
      ∀ p : Precision, (m.layoutWith p ⟨100, 140⟩ f {}).Unsqueezed f {} := by
  intro source f
  have h : (ofProgram source).toOption.map (fun m => (total (m.minHeights f {}),
      (m.layout ⟨100, 140⟩ f {}).cramped, (m.layout ⟨100, 140⟩ f {}).frame)) =
        some (66, none, ⟨[45, 23, 31], [31, 37, 31, 40]⟩) := by
    decide +kernel
  obtain ⟨m, hm, hlayout⟩ := Option.map_eq_some_iff.1 h
  simp only [Prod.mk.injEq] at hlayout
  obtain ⟨hheights, hcramped, hframe⟩ := hlayout
  have hfits : total (m.minHeights f {}) ≤ 2147483647 := by omega
  exact ⟨m, toOption_eq_some.1 hm, hfits, hcramped, hframe,
    unsqueezed_layout (by decide) hfits hcramped⟩

end Circuit

end QuantumDiagram
