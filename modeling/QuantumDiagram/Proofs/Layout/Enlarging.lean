import Mathlib.Data.List.Forall2
import QuantumDiagram.Proofs.Layout.Fitting

/-!
# Larger surfaces

On a larger surface nothing gets smaller: no column, no row, no label and no element
(`Layout.GrowsTo`, `Circuit.growsTo_layout`). Columns and rows only need arithmetic in which
quotients and sums are monotone, be they exact or rounded (`Arithmetic`); labels and elements then
grow with their cells.
-/

namespace QuantumDiagram

/-! ## Monotone shares -/

/-- Rounded quotients and sums are monotone. -/
def Precision.arithmetic (p : Precision) : Arithmetic where
  quotient n count := p.round ((n : ℚ) / p.round (count : ℚ))
  sum least share := p.round ((least : ℚ) + share)
  quotient_le count n n' h := by
    have hcount : 0 ≤ p.round (count : ℚ) := p.nonneg_round (Nat.cast_nonneg _)
    have hcast : (n : ℚ) ≤ n' := by exact_mod_cast h
    exact p.monotone (div_le_div_of_nonneg_right hcast hcount)
  sum_le least share share' h := p.monotone (add_le_add_right h _)

theorem saturate_mono {n k : Int} (h : n ≤ k) : saturate n ≤ saturate k := by
  unfold saturate
  omega

theorem truncate_mono {q r : ℚ} (h : q ≤ r) : truncate q ≤ truncate r := by
  unfold truncate
  by_cases hq : 0 ≤ q
  · rw [if_pos hq, if_pos (hq.trans h)]
    exact Int.floor_mono h
  · rw [if_neg hq]
    split
    · -- One number is negative and the other one is not.
      rename_i hr
      have hlow : ⌈q⌉ ≤ 0 := Int.ceil_le.2 (by simpa using (not_le.1 hq).le)
      exact hlow.trans (Int.floor_nonneg.2 hr)
    · exact Int.ceil_mono h

/-- **If there is more to divide, no entry gets less.** -/
theorem distributeBy_mono (a : Arithmetic) (minimums : List Int) {available available' : Int}
    (h : available ≤ available') : List.Forall₂ (· ≤ ·) (distributeBy a minimums available)
      (distributeBy a minimums available') := by
  have hleftover : saturate (available - total minimums) ≤ saturate (available' - total minimums) :=
    saturate_mono (by omega)
  have hshare := a.quotient_le minimums.length hleftover
  unfold distributeBy
  rw [List.forall₂_map_left_iff, List.forall₂_map_right_iff, List.forall₂_same]
  intro least _
  have hsize := saturate_mono (truncate_mono (a.sum_le least hshare))
  exact max_le_max_left 0 hsize

/-! ## Frames -/

namespace Frame

/-- No column and no row of the second frame is smaller than that of the first one. -/
structure GrowsTo (frame frame' : Frame) : Prop where
  widths : List.Forall₂ (· ≤ ·) frame.widths frame'.widths
  heights : List.Forall₂ (· ≤ ·) frame.heights frame'.heights

end Frame

theorem forall₂_bandsFrom {lengths lengths' : List Int} (h : List.Forall₂ (· ≤ ·) lengths lengths')
    (start start' : Int) : List.Forall₂ (fun b b' => b.length ≤ b'.length)
      (bandsFrom start lengths) (bandsFrom start' lengths') := by
  induction h generalizing start start' with
  | nil => exact .nil
  | cons hle _ ih => exact .cons hle (ih _ _)

theorem forall₂_zipWith {α β γ : Type} {R : β → β → Prop} {S : γ → γ → Prop} {f : α → β → γ}
    (hf : ∀ a b b', R b b' → S (f a b) (f a b')) (as : List α) {bs bs' : List β}
    (h : List.Forall₂ R bs bs') :
    List.Forall₂ S (List.zipWith f as bs) (List.zipWith f as bs') := by
  induction h generalizing as with
  | nil => simp
  | cons hb _ ih =>
    cases as with
    | nil => simp
    | cons a as => exact .cons (hf a _ _ hb) (ih as)

/-! ## Labels and elements -/

/-- The box `c` is as wide and as high as `b`, or more so. -/
structure Box.GrowsTo (b c : Box) : Prop where
  width : b.width ≤ c.width
  height : b.height ≤ c.height

/-- What is centred in a cell grows with the cell. -/
theorem Box.GrowsTo.centered {b c : Box} (h : b.GrowsTo c) (width height : Int) :
    (b.centered width height).GrowsTo (c.centered width height) := by
  obtain ⟨hwidth, hheight⟩ := h
  constructor
  · show max 0 (min width b.width) ≤ max 0 (min width c.width)
    omega
  · show max 0 (min height b.height) ≤ max 0 (min height c.height)
    omega

namespace Label

/-- The same label, in a box that is not smaller. -/
structure GrowsTo (label label' : Label) : Prop where
  channel : label.channel = label'.channel
  bounds : label.bounds.GrowsTo label'.bounds

end Label

namespace Element

/-- The element of the same cell, in a box that is not smaller. -/
structure GrowsTo (e e' : Element) : Prop where
  channel : e.channel = e'.channel
  column : e.column = e'.column
  bounds : e.bounds.GrowsTo e'.bounds

end Element

namespace Scene

section Growth

variable {m : Circuit} {frame frame' : Frame} {f : TextMetrics} {s : LayoutSettings}

theorem forall₂_rows (h : frame.GrowsTo frame') :
    List.Forall₂ (fun r r' => r.channel = r'.channel ∧ r.band.length ≤ r'.band.length)
      (Scene.mk m frame f s).rows (Scene.mk m frame' f s).rows :=
  forall₂_zipWith (fun _ _ _ hle => ⟨rfl, hle⟩) m.visibleRows (forall₂_bandsFrom h.heights 0 0)

theorem forall₂_columns (h : frame.GrowsTo frame') :
    List.Forall₂ (fun c c' => c.index = c'.index ∧ c.band.length ≤ c'.band.length)
      (Scene.mk m frame f s).columns (Scene.mk m frame' f s).columns := by
  have hbands := List.forall₂_drop 1 (forall₂_bandsFrom h.widths 0 0)
  rw [List.drop_one, List.drop_one] at hbands
  exact forall₂_zipWith (fun _ _ _ hle => ⟨rfl, hle⟩) (List.range m.columns) hbands

theorem length_labelBand_le (h : frame.GrowsTo frame') :
    (Scene.mk m frame f s).labelBand.length ≤ (Scene.mk m frame' f s).labelBand.length := by
  have hwidths := h.widths
  show frame.widths.headD 0 ≤ frame'.widths.headD 0
  generalize frame.widths = widths at hwidths ⊢
  generalize frame'.widths = widths' at hwidths ⊢
  cases hwidths with
  | nil => exact Int.le_refl 0
  | cons hle _ => exact hle

theorem forall₂_labels (h : frame.GrowsTo frame') : List.Forall₂ Label.GrowsTo
    (Scene.mk m frame f s).labels (Scene.mk m frame' f s).labels := by
  have hlabel (row row' : Row)
      (hrow : row.channel = row'.channel ∧ row.band.length ≤ row'.band.length) :
      ((Scene.mk m frame f s).label row).GrowsTo ((Scene.mk m frame' f s).label row') := by
    obtain ⟨hchannel, hheight⟩ := hrow
    refine ⟨hchannel, ?_⟩
    show Box.GrowsTo (Box.centered _ (f.textWidth (m.label row.channel)) f.lineHeight) _
    rw [hchannel]
    exact Box.GrowsTo.centered ⟨length_labelBand_le h, hheight⟩ _ _
  exact List.rel_map hlabel (forall₂_rows h)

/-- The elements of a cell of the circuit, in two frames. -/
theorem rel_element? {row row' : Row} {column column' : Column}
    (hrow : row.channel = row'.channel ∧ row.band.length ≤ row'.band.length)
    (hcolumn : column.index = column'.index ∧ column.band.length ≤ column'.band.length) :
    Option.Rel Element.GrowsTo ((Scene.mk m frame f s).element? row column)
      ((Scene.mk m frame' f s).element? row' column') := by
  obtain ⟨hchannel, hheight⟩ := hrow
  obtain ⟨hindex, hwidth⟩ := hcolumn
  unfold element?
  rw [hchannel, hindex]
  cases m.grid.get? row'.channel column'.index with
  | none => exact .none
  | some i => exact .some ⟨rfl, rfl, Box.GrowsTo.centered ⟨hwidth, hheight⟩ _ _⟩

theorem forall₂_elements (h : frame.GrowsTo frame') : List.Forall₂ Element.GrowsTo
    (Scene.mk m frame f s).elements (Scene.mk m frame' f s).elements :=
  List.rel_flatMap (forall₂_rows h) fun _ _ hrow =>
    List.rel_filterMap (fun _ _ hcolumn => rel_element? hrow hcolumn) (forall₂_columns h)

end Growth

end Scene

/-! ## Layouts -/

/-- No size in the layout `l'` is smaller than the corresponding one in `l`, and if the surface of
`l` is large enough, so is that of `l'`. -/
structure Layout.GrowsTo (l l' : Layout) : Prop where
  frame : l.frame.GrowsTo l'.frame
  labels : List.Forall₂ Label.GrowsTo l.labels l'.labels
  elements : List.Forall₂ Element.GrowsTo l.elements l'.elements
  cramped : l.cramped = none → l'.cramped = none

namespace Circuit

/-- Rounded shares are computed in rounded arithmetic, and exact ones in the exact one. -/
theorem layoutBy_arithmetic (p : Precision) (m : Circuit) (surface : Size) (f : TextMetrics)
    (s : LayoutSettings) : m.layoutBy p.arithmetic surface f s = m.layoutWith p surface f s := rfl

section Growth

variable (m : Circuit) {surface surface' : Size} (f : TextMetrics) (s : LayoutSettings)

theorem growsTo_frameBy (a : Arithmetic) (hwidth : surface.width ≤ surface'.width)
    (hheight : surface.height ≤ surface'.height) :
    (m.frameBy a (drawable surface) f s).GrowsTo (m.frameBy a (drawable surface') f s) := by
  constructor
  · exact distributeBy_mono a _ (max_le_max_left 0 hwidth)
  · have hroom : saturate ((drawable surface).height - m.labelRowHeight f s) ≤
        saturate ((drawable surface').height - m.labelRowHeight f s) :=
      saturate_mono (Int.sub_le_sub_right (max_le_max_left 0 hheight) _)
    exact List.rel_append (distributeBy_mono a _ hroom) (List.forall₂_refl _)

/-- What fits on a surface fits on a larger one. -/
theorem cramped?_eq_none_of_le (hwidth : surface.width ≤ surface'.width)
    (hheight : surface.height ≤ surface'.height) (h : m.cramped? surface f s = none) :
    m.cramped? surface' f s = none := by
  have hdrawable : (drawable surface).width ≤ (drawable surface').width ∧
      (drawable surface).height ≤ (drawable surface').height :=
    ⟨max_le_max_left 0 hwidth, max_le_max_left 0 hheight⟩
  unfold cramped? Cramped.check at h ⊢
  split at h
  · cases h
  · next hfits => exact if_neg (by omega)

/-- **On a larger surface nothing gets smaller**, whether the shares are computed exactly or in any
arithmetic with monotone quotients and sums. -/
theorem growsTo_layout (hwidth : surface.width ≤ surface'.width)
    (hheight : surface.height ≤ surface'.height) :
    (m.layout surface f s).GrowsTo (m.layout surface' f s) ∧
      ∀ a : Arithmetic, (m.layoutBy a surface f s).GrowsTo (m.layoutBy a surface' f s) := by
  have hgrows (a : Arithmetic) :
      (m.layoutBy a surface f s).GrowsTo (m.layoutBy a surface' f s) := by
    have hframe := m.growsTo_frameBy f s a hwidth hheight
    exact ⟨hframe, Scene.forall₂_labels hframe, Scene.forall₂_elements hframe,
      m.cramped?_eq_none_of_le f s hwidth hheight⟩
  refine ⟨?_, hgrows⟩
  rw [← layoutWith_exact, ← layoutWith_exact, ← layoutBy_arithmetic, ← layoutBy_arithmetic]
  exact hgrows Precision.exact.arithmetic

/-- A surface that is too small, and one with room for everything. -/
theorem growsTo_layout_caption :
    let source := "qubits 2\n.pair(3)\n cnot q0, q1\nmeasure q1".toList
    let f := FontMetrics.toTextMetrics ⟨10, 20⟩
    ∃ m, ofProgram source = .ok m ∧ (50 : Int) ≤ 100 ∧ (-3 : Int) ≤ 140 ∧
      (m.layout ⟨50, -3⟩ f {}).frame = ⟨[28, 6, 14], [0, 0, 0, 40]⟩ ∧
      (m.layout ⟨100, 140⟩ f {}).frame = ⟨[45, 23, 31], [31, 37, 31, 40]⟩ ∧
      (m.layout ⟨50, -3⟩ f {}).GrowsTo (m.layout ⟨100, 140⟩ f {}) ∧
      ∀ a : Arithmetic, (m.layoutBy a ⟨50, -3⟩ f {}).GrowsTo (m.layoutBy a ⟨100, 140⟩ f {}) := by
  intro source f
  have h : (ofProgram source).toOption.map (fun m =>
      ((m.layout ⟨50, -3⟩ f {}).frame, (m.layout ⟨100, 140⟩ f {}).frame)) =
        some (⟨[28, 6, 14], [0, 0, 0, 40]⟩, ⟨[45, 23, 31], [31, 37, 31, 40]⟩) := by
    decide +kernel
  obtain ⟨m, hm, hlayouts⟩ := Option.map_eq_some_iff.1 h
  obtain ⟨hsmall, hlarge⟩ := Prod.mk.inj hlayouts
  exact ⟨m, toOption_eq_some.1 hm, by decide, by decide, hsmall, hlarge,
    growsTo_layout m f {} (by decide) (by decide)⟩

end Growth

end Circuit

end QuantumDiagram
