import QuantumDiagram.Proofs.Layout.Fitting

/-!
# The surface is filled

On a surface that is large enough, the columns and the rows take all of it but for the remainder of
a division (`total_distribute`): each entry gets the same whole number of units beyond its least
size. So less than one unit for each column, and less than one for each visible row, is left over
(`Circuit.filled_layout`).
-/

namespace QuantumDiagram

/-! ## Sums -/

theorem total_append (ns ms : List Int) : total (ns ++ ms) = total ns + total ms := by
  induction ns with
  | nil => simp
  | cons n ns ih => simp [ih, Int.add_assoc]

theorem total_map_add (ns : List Int) (k : Int) :
    total (ns.map (· + k)) = total ns + ns.length * k := by
  induction ns with
  | nil => simp
  | cons n ns ih =>
    rw [List.map_cons, total_cons, total_cons, ih, List.length_cons, Nat.cast_succ, Int.add_mul]
    omega

theorem saturate_eq_self {n : Int} (hlow : -2147483648 ≤ n) (hhigh : n ≤ 2147483647) :
    saturate n = n := by
  unfold saturate
  omega

/-! ## Shares of what is left over -/

section Shares

variable {minimums : List Int} {available : Int}

/-- If all least sizes fit, each entry gets an equal part of what is left over, without its
fraction. -/
theorem distribute_eq_map (hnonneg : ∀ n ∈ minimums, 0 ≤ n) (hfits : total minimums ≤ available)
    (hmax : available ≤ 2147483647) : distribute minimums available =
      minimums.map (· + (available - total minimums) / minimums.length) := by
  refine List.map_congr_left fun least hleast => ?_
  have hcount : (0 : Int) < minimums.length := by
    have := List.length_pos_of_mem hleast
    omega
  have hpos : 0 ≤ least := hnonneg least hleast
  have hsum : least ≤ total minimums := le_total hnonneg hleast
  have hleftover : saturate (available - total minimums) = available - total minimums :=
    saturate_eq_self (by omega) (by omega)
  have hpart : 0 ≤ (available - total minimums) / minimums.length ∧
      (available - total minimums) / minimums.length ≤ available - total minimums :=
    ⟨Int.ediv_nonneg (by omega) (by omega), Int.ediv_le_self _ (by omega)⟩
  have hsize : (least * minimums.length + (available - total minimums)).tdiv minimums.length =
      least + (available - total minimums) / minimums.length := by
    have hproduct : 0 ≤ least * minimums.length := Int.mul_nonneg hpos (by omega)
    rw [Int.tdiv_eq_ediv_of_nonneg (by omega), Int.add_comm,
      Int.add_mul_ediv_right _ _ (by omega), Int.add_comm]
  rw [hleftover, hsize, saturate_eq_self (by omega) (by omega)]
  omega

/-- **What fits is shared out but for the remainder** of the division. -/
theorem total_distribute (hnonneg : ∀ n ∈ minimums, 0 ≤ n) (hfits : total minimums ≤ available)
    (hmax : available ≤ 2147483647) : total (distribute minimums available) =
      total minimums + minimums.length * ((available - total minimums) / minimums.length) := by
  rw [distribute_eq_map hnonneg hfits hmax, total_map_add]

/-- Less than one unit for each entry is left over. -/
theorem bounds_total_distribute (hne : minimums ≠ []) (hnonneg : ∀ n ∈ minimums, 0 ≤ n)
    (hfits : total minimums ≤ available) (hmax : available ≤ 2147483647) :
    available - minimums.length < total (distribute minimums available) ∧
      total (distribute minimums available) ≤ available := by
  have hcount : (0 : Int) < minimums.length := by
    have := List.length_pos_of_ne_nil hne
    omega
  have hdivision := Int.mul_ediv_add_emod (available - total minimums) minimums.length
  have hremainder := Int.emod_nonneg (available - total minimums) (Int.ne_of_gt hcount)
  have hless := Int.emod_lt_of_pos (available - total minimums) hcount
  rw [total_distribute hnonneg hfits hmax]
  omega

end Shares

namespace Circuit

/-- The row of captions takes its height in full, if it has one. -/
theorem total_heights (m : Circuit) (surface : Size) (f : TextMetrics) (s : LayoutSettings)
    (h : 0 ≤ m.labelRowHeight f s) : total (m.frame surface f s).heights =
      total (distribute (m.minHeights f s) (saturate (surface.height - m.labelRowHeight f s))) +
        m.labelRowHeight f s := by
  show total (_ ++ if 0 < m.labelRowHeight f s then [m.labelRowHeight f s] else []) = _
  rw [total_append]
  split
  · simp
  · rw [total_nil]
    omega

theorem labelRowHeight_nonneg {m : Circuit} {f : TextMetrics} {s : LayoutSettings}
    (h : 0 ≤ s.labelRowLines * f.lineHeight) : 0 ≤ m.labelRowHeight f s := by
  unfold labelRowHeight
  split
  · exact Int.le_refl 0
  · exact h

/-- A surface that is not too small has a width and a height. -/
theorem drawable_of_cramped?_eq_none {m : Circuit} {surface : Size} {f : TextMetrics}
    {s : LayoutSettings} (h : m.cramped? surface f s = none) : drawable surface = surface := by
  unfold cramped? Cramped.check at h
  split at h
  · cases h
  · next hfits =>
    obtain ⟨width, height⟩ := surface
    simp only [drawable, not_or, Size.mk.injEq] at hfits ⊢
    omega

/-- **A large enough surface is filled**: less than one unit for each column, the column of labels
among them, and less than one for each visible row is left over. -/
theorem filled_layout {source : Text} {m : Circuit} (hm : ofProgram source = .ok m) {surface : Size}
    {f : TextMetrics} {s : LayoutSettings} (hwidth : surface.width ≤ 2147483647)
    (hheight : surface.height ≤ 2147483647) (hcaptions : 0 ≤ s.labelRowLines * f.lineHeight)
    (h : (m.layout surface f s).cramped = none) :
    let l := m.layout surface f s
    (surface.width - (m.columns + 1) < total l.frame.widths ∧
      total l.frame.widths ≤ surface.width) ∧
    surface.height - l.rows.length < total l.frame.heights ∧
      total l.frame.heights ≤ surface.height := by
  obtain ⟨hw, hh⟩ := le_of_cramped?_eq_none h
  have hdrawable := drawable_of_cramped?_eq_none h
  rw [hdrawable] at hw hh
  have hlabels := labelRowHeight_nonneg (m := m) hcaptions
  constructor
  · have hne : m.minWidths f s ≠ [] := List.cons_ne_nil _ _
    have hbounds := bounds_total_distribute hne (fun _ => nonneg_of_mem_minWidths) hw hwidth
    rw [length_minWidths] at hbounds
    show _ < total (distribute (m.minWidths f s) (drawable surface).width) ∧
      total (distribute (m.minWidths f s) (drawable surface).width) ≤ _
    rw [hdrawable]
    push_cast at hbounds
    exact hbounds
  · have hne : m.minHeights f s ≠ [] := by
      have hqubit := qubit_mem_visibleRows (qubits_pos_of_ofProgram hm)
      exact List.ne_nil_of_mem (List.mem_map_of_mem hqubit)
    have hnonneg : ∀ n ∈ m.minHeights f s, 0 ≤ n := fun _ => nonneg_of_mem_minHeights
    have hroom : saturate (surface.height - m.labelRowHeight f s) =
        surface.height - m.labelRowHeight f s := by
      obtain ⟨n, hn⟩ := List.exists_mem_of_ne_nil _ hne
      have := hnonneg n hn
      have := le_total hnonneg hn
      exact saturate_eq_self (by omega) (by omega)
    have hfits : total (m.minHeights f s) ≤ surface.height - m.labelRowHeight f s := by omega
    have hmax : surface.height - m.labelRowHeight f s ≤ 2147483647 := by omega
    have hbounds := bounds_total_distribute hne hnonneg hfits hmax
    rw [length_minHeights] at hbounds
    show _ < total (m.frame (drawable surface) f s).heights ∧
      total (m.frame (drawable surface) f s).heights ≤ _
    rw [hdrawable, total_heights m surface f s hlabels, hroom]
    show _ - (m.visibleRows.length : Int) < _ ∧ _
    omega

/-- One unit of the width is left over, and one of the height, above the row of the subroutine's
caption. -/
theorem filled_layout_caption :
    let source := "qubits 2\n.pair(3)\n cnot q0, q1\nmeasure q1".toList
    let f := FontMetrics.toTextMetrics ⟨10, 20⟩
    ∃ m, ofProgram source = .ok m ∧ m.columns = 2 ∧
      let l := m.layout ⟨100, 140⟩ f {}
      l.cramped = none ∧ l.frame = ⟨[45, 23, 31], [31, 37, 31, 40]⟩ ∧ l.rows.length = 3 ∧
      ((100 : Int) - (m.columns + 1) < total l.frame.widths ∧ total l.frame.widths ≤ 100) ∧
      (140 : Int) - l.rows.length < total l.frame.heights ∧ total l.frame.heights ≤ 140 := by
  intro source f
  have h : (ofProgram source).toOption.map (fun m =>
      let l := m.layout ⟨100, 140⟩ f {}
      (m.columns, l.cramped, l.frame, l.rows.length)) =
        some (2, none, ⟨[45, 23, 31], [31, 37, 31, 40]⟩, 3) := by
    decide +kernel
  obtain ⟨m, hm, hlayout⟩ := Option.map_eq_some_iff.1 h
  simp only [Prod.mk.injEq] at hlayout
  obtain ⟨hcolumns, hcramped, hframe, hrows⟩ := hlayout
  have hm := toOption_eq_some.1 hm
  exact ⟨m, hm, hcolumns, hcramped, hframe, hrows,
    filled_layout hm (by decide) (by decide) (by decide) hcramped⟩

end Circuit

end QuantumDiagram
