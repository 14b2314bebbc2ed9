import QuantumDiagram.Proofs.Circuit.SubroutineHeaders
import QuantumDiagram.Proofs.Layout.Cells

/-!
# Layouts by position

A layout can be computed with widths, heights, places and labels in lists, which are read and
written by position: the label column has the position 0, and column `k` of the circuit the position
`k + 1`. `Circuit.layoutByPosition?` does so step by step, and has no result if a position is out of
range. For the circuit of a program this never happens, and the result is the circuit's layout
(`Circuit.layoutByPosition?_eq`).
-/

namespace QuantumDiagram

/-- Raises the size at a position to a least one. -/
def raise? (sizes : List Int) (position : Nat) (least : Int) : Option (List Int) :=
  sizes[position]?.map fun size => sizes.set position (max size least)

/-- The sizes that start from nothing and meet all demands, each of them a least size at a
position. -/
def raiseAll? (count : Nat) (demands : List (Nat × Int)) : Option (List Int) :=
  demands.foldlM (fun sizes (position, least) => raise? sizes position least)
    (List.replicate count 0)

namespace Frame

/-- The cell in a column and a row. -/
def cell? (frame : Frame) (column row : Nat) : Option Box := do
  let horizontal ← frame.columns[column]?
  let vertical ← frame.rows[row]?
  return .ofBands horizontal vertical

/-- The columns from `start` up to `stop` as one. The range is cut off at the end, and is one only
if it does not run backwards. -/
def span? (frame : Frame) (start stop : Nat) : Option Band :=
  let stop := min stop frame.widths.length
  let start := min start stop
  if start ≤ stop ∧ stop ≤ frame.widths.length then
    some ⟨(frame.columns[start]?).elim (total frame.widths) Band.start,
      total ((frame.widths.take stop).drop start)⟩
  else none

end Frame

/-- The element placed at a site. -/
def placed? (elements : List Element) (c : Channel) (column : Nat) : Option Element :=
  elements.find? fun e => e.channel = c && e.column = column

/-- Where the piece of a wire in a column begins: behind the label or the element placed before,
else at the left edge of the cell. -/
def wireStart (labels : List Label) (elements : List Element) (c : Channel) (row column : Nat)
    (left : Int) : Int :=
  if column = 0 then labels[row]?.elim left (·.bounds.right)
  else (placed? elements c (column - 1)).elim left (·.bounds.right)

/-- What a connector meets in a row: the element placed there, else the end of the cell. -/
def metAt? (frame : Frame) (elements : List Element) (column : Nat) (c : Channel) (row : Nat) :
    Option Band :=
  match placed? elements c column with
  | some e => some e.bounds.vertical
  | none => (frame.cell? (column + 1) row).map (·.vertical.last)

/-- The pieces of a connector from the height `y` on, through rows with their positions down to the
lowest channel. -/
def walk? (frame : Frame) (elements : List Element) (style : LineStyle) (x : Int) (column : Nat)
    (lowest : Channel) : Int → List (Channel × Nat) → Option (List Segment)
  | _, [] => some []
  | y, (c, row) :: below =>
    (metAt? frame elements column c row).bind fun met =>
      (if c = lowest then some []
        else walk? frame elements style x column lowest met.stop below).map
          (.connector style x y met.start :: ·)

namespace Circuit

section ByPosition

variable (m : Circuit) (f : TextMetrics) (s : LayoutSettings)

/-- What each visible row demands, at its position. -/
def rowDemands (demand : Channel → List Int) : List (Nat × Int) :=
  m.visibleRows.zipIdx.flatMap fun (c, row) => (demand c).map (row, ·)

/-- What the labels and cells demand of the widths. -/
def widthDemands : List (Nat × Int) :=
  (m.visibleRows.map fun c => (0, f.textWidth (m.label c))) ++
    m.visibleRows.flatMap fun c => (m.grid.rows.getD c []).map fun (site, i) =>
      (site.column + 1, ((i.glyphAt c).minSize f s).width)

/-- What the labels and cells demand of the heights. -/
def heightDemands : List (Nat × Int) :=
  (m.rowDemands fun _ => [f.lineHeight]) ++
    m.rowDemands fun c => (m.grid.rows.getD c []).map fun (_, i) =>
      ((i.glyphAt c).minSize f s).height

variable (frame : Frame)

def labelsByPosition? : Option (List Label) :=
  m.visibleRows.zipIdx.mapM fun (c, row) => do
    let cell ← frame.cell? 0 row
    let text := m.label c
    return { channel := c, text, cell, bounds := cell.centered (f.textWidth text) f.lineHeight }

def elementsByPosition? : Option (List Element) :=
  m.visibleRows.zipIdx.flatMapM fun (c, row) => (m.grid.rows.getD c []).mapM fun (site, i) => do
    let cell ← frame.cell? (site.column + 1) row
    return .ofInstruction f s cell ⟨c, site.column⟩ i

/-- The piece of a wire in a column, and in the last one also what is behind an element. -/
def wireByPosition? (labels : List Label) (elements : List Element) (c : Channel)
    (row column : Nat) : Option (List Segment) := do
  let cell ← frame.cell? (column + 1) row
  let piece := fun x₁ x₂ => Segment.wire (.ofClassical c.isClassical) x₁ x₂ cell.center.y
  let start := wireStart labels elements c row column cell.x
  match placed? elements c column with
  | none => return [piece start cell.right]
  | some e =>
    return piece start e.bounds.x ::
      if column + 1 = m.columns then [piece e.bounds.right cell.right] else []

def wiresByPosition? (labels : List Label) (elements : List Element) : Option (List Segment) :=
  m.visibleRows.zipIdx.flatMapM fun (c, row) =>
    (List.range m.columns).flatMapM (m.wireByPosition? frame labels elements c row)

/-- The connector that begins in a row. -/
def connectorByPosition? (elements : List Element) (x : Int) (column : Nat) (c : Channel)
    (row : Nat) : Option (List Segment) :=
  match m.grid.get? c column with
  | none => some []
  | some i =>
    if i.role = .singleChannel ∨ i.participants.first? ≠ some c then some []
    else
      match i.participants.last?, placed? elements c column with
      | some lowest, some top =>
        walk? frame elements (.ofClassical i.isClassicalLink) x column lowest top.bounds.bottom
          (m.visibleRows.zipIdx.drop (row + 1))
      | _, _ => some []

def connectorsByPosition? (elements : List Element) : Option (List Segment) :=
  (List.range m.columns).flatMapM fun column => do
    let band ← frame.columns[column + 1]?
    m.visibleRows.zipIdx.flatMapM fun (c, row) =>
      m.connectorByPosition? frame elements band.center column c row

def bracketsByPosition? : Option (List Bracket) :=
  if m.subroutines.isEmpty ∨ frame.heights.length ≤ m.visibleRows.length then some []
  else do
    let row ← frame.rows[m.visibleRows.length]?
    let height ← frame.heights[0]?
    let line := f.lineHeight
    let margin := s.captionMargin
    m.subroutines.mapM fun sub => do
      let columns ← frame.span? (sub.start + 1) (sub.stop + 1)
      let area := Box.ofBands columns row
      let y := saturate ((2 * row.start + (row.length - line - margin)).tdiv 2)
      return {
        name := sub.name
        caption := sub.caption
        area
        left := ⟨columns.start, y⟩
        right := ⟨area.right, y⟩
        anchor := ⟨saturate ((2 * columns.start + columns.length).tdiv 2),
          saturate ((2 * row.stop - line - margin).tdiv 2)⟩
        guideTop := height.tdiv 4 }

/-- The layout of a circuit, unless a position is out of range. -/
def layoutByPosition? (surface : Size) : Option Layout := do
  let available := drawable surface
  let captions := m.labelRowHeight f s
  let leastWidths ← raiseAll? (m.columns + 1) (m.widthDemands f s)
  let leastHeights ← raiseAll? m.visibleRows.length (m.heightDemands f s)
  let frame : Frame :=
    { widths := distribute leastWidths available.width
      heights := distribute leastHeights (saturate (available.height - captions)) ++
        if 0 < captions then [captions] else [] }
  let labels ← m.labelsByPosition? f frame
  let elements ← m.elementsByPosition? f s frame
  let wires ← m.wiresByPosition? frame labels elements
  let connectors ← m.connectorsByPosition? frame elements
  let brackets ← m.bracketsByPosition? f s frame
  return {
    frame
    rows := m.visibleRows
    labels
    elements
    segments := wires ++ connectors
    brackets
    doubleLineGap := s.doubleLineGap
    borderWidth := s.borderWidth
    cramped := Cramped.check ⟨total leastWidths, total leastHeights + captions⟩ available }

end ByPosition

end Circuit

/-! ## Least sizes -/

/-- What is demanded at a position. -/
def demandsAt (demands : List (Nat × Int)) (position : Nat) : List Int :=
  (demands.filter (·.1 = position)).map (·.2)

theorem demandsAt_append (demands demands' : List (Nat × Int)) (position : Nat) :
    demandsAt (demands ++ demands') position =
      demandsAt demands position ++ demandsAt demands' position := by
  rw [demandsAt, List.filter_append, List.map_append]
  rfl

theorem demandsAt_eq_nil {demands : List (Nat × Int)} {position : Nat}
    (h : ∀ d ∈ demands, d.1 ≠ position) : demandsAt demands position = [] := by
  rw [demandsAt, List.map_eq_nil_iff, List.filter_eq_nil_iff]
  intro d hd
  simpa using h d hd

/-- What is demanded at each position stands at this position. -/
theorem demandsAt_zipIdx {α : Type} (l : List α) (demand : α → List Int) (n r : Nat) :
    demandsAt ((l.zipIdx n).flatMap fun (a, k) => (demand a).map (k, ·)) (n + r) =
      l[r]?.toList.flatMap demand := by
  induction l generalizing n r with
  | nil => rfl
  | cons a l ih =>
    rw [List.zipIdx_cons, List.flatMap_cons, demandsAt_append]
    cases r with
    | zero =>
      have hbehind : demandsAt ((l.zipIdx (n + 1)).flatMap fun (a, k) => (demand a).map (k, ·))
          (n + 0) = [] := by
        refine demandsAt_eq_nil fun d hd => ?_
        obtain ⟨⟨a, k⟩, hk, hd⟩ := List.mem_flatMap.1 hd
        obtain ⟨_, -, rfl⟩ := List.mem_map.1 hd
        have hle := List.le_snd_of_mem_zipIdx hk
        exact Nat.ne_of_gt hle
      rw [hbehind]
      simp [demandsAt, List.filter_map, Function.comp_def]
    | succ r =>
      have hhead : demandsAt ((demand a).map (n, ·)) (n + (r + 1)) = [] := by
        refine demandsAt_eq_nil fun d hd => ?_
        obtain ⟨_, -, rfl⟩ := List.mem_map.1 hd
        show n ≠ n + (r + 1)
        omega
      rw [hhead, List.nil_append, show n + (r + 1) = n + 1 + r by omega, ih]
      rfl

theorem raise?_of_lt {sizes : List Int} {position : Nat} (h : position < sizes.length)
    (least : Int) :
    raise? sizes position least = some (sizes.set position (max sizes[position] least)) := by
  rw [raise?, List.getElem?_eq_getElem h]
  rfl

theorem foldlM_raise? (demands : List (Nat × Int)) (sizes : List Int)
    (h : ∀ d ∈ demands, d.1 < sizes.length) :
    demands.foldlM (fun sizes (position, least) => raise? sizes position least) sizes =
      some (sizes.mapIdx fun k size => (demandsAt demands k).foldl max size) := by
  induction demands generalizing sizes with
  | nil =>
    refine congrArg some (List.ext_getElem? fun k => ?_)
    rw [List.getElem?_mapIdx]
    cases sizes[k]? <;> rfl
  | cons d demands ih =>
    obtain ⟨position, least⟩ := d
    have hposition : position < sizes.length := h _ List.mem_cons_self
    have hrest : ∀ d ∈ demands, d.1 < (sizes.set position (max sizes[position] least)).length := by
      intro d hd
      rw [List.length_set]
      exact h d (List.mem_cons_of_mem _ hd)
    rw [List.foldlM_cons]
    show (raise? sizes position least).bind _ = _
    rw [raise?_of_lt hposition, Option.bind_some]
    refine (ih _ hrest).trans ?_
    refine congrArg some (List.ext_getElem? fun k => ?_)
    rw [List.getElem?_mapIdx, List.getElem?_mapIdx, List.getElem?_set]
    by_cases hk : position = k
    · subst hk
      simp [demandsAt, hposition]
    · simp [demandsAt, hk]

/-- If no position is out of range, each size is the largest one demanded. -/
theorem raiseAll?_eq {count : Nat} {demands : List (Nat × Int)} (h : ∀ d ∈ demands, d.1 < count) :
    raiseAll? count demands =
      some ((List.range count).map fun k => Circuit.largest (demandsAt demands k)) := by
  have hbounds : ∀ d ∈ demands, d.1 < (List.replicate count (0 : Int)).length := by
    intro d hd
    rw [List.length_replicate]
    exact h d hd
  rw [raiseAll?, foldlM_raise? _ _ hbounds]
  refine congrArg some (List.ext_getElem? fun k => ?_)
  rw [List.getElem?_mapIdx, List.getElem?_replicate, List.getElem?_map]
  by_cases hk : k < count
  · rw [List.getElem?_range hk, if_pos hk]
    rfl
  · rw [if_neg hk, List.getElem?_eq_none (by simpa using hk)]
    rfl

namespace Circuit

section LeastSizes

variable {source : Text} {m : Circuit} (h : ofProgram source = .ok m) (f : TextMetrics)
  (s : LayoutSettings)
include h

/-- The cells demand widths of their own columns. -/
theorem widthDemands_eq : m.widthDemands f s =
    (m.visibleRows.map fun c => (0, f.textWidth (m.label c))) ++
      m.grid.toList.map fun (site, i) =>
        (site.column + 1, ((i.glyphAt site.channel).minSize f s).width) := by
  rw [widthDemands, toList_grid h, List.map_flatMap]
  refine congrArg _ (List.flatMap_congr fun c _ => ?_)
  rw [getD_rows_grid h]
  refine List.map_congr_left fun x hx => ?_
  obtain ⟨⟨c', k⟩, i⟩ := x
  obtain ⟨rfl, -⟩ := mem_rowCells.1 hx
  rfl

theorem leastWidths_eq : raiseAll? (m.columns + 1) (m.widthDemands f s) =
    some (m.minWidths f s) := by
  have hlabels : demandsAt (m.widthDemands f s) 0 =
      m.visibleRows.map fun c => f.textWidth (m.label c) := by
    rw [widthDemands_eq h]
    simp [demandsAt, List.filter_map, Function.comp_def]
  have hcells (k : Nat) : demandsAt (m.widthDemands f s) (k + 1) =
      ((m.grid.toList.map fun (site, i) =>
        (site.column, ((i.glyphAt site.channel).minSize f s).width)).filter (·.1 = k)).map
          (·.2) := by
    rw [widthDemands_eq h]
    simp [demandsAt, List.filter_map, Function.comp_def]
  rw [raiseAll?_eq, List.range_succ_eq_map, List.map_cons, hlabels, List.map_map]
  · refine congrArg some (congrArg (List.cons _) (List.map_congr_left fun k _ => ?_))
    exact congrArg largest (hcells k)
  · intro d hd
    rw [widthDemands_eq h] at hd
    rcases List.mem_append.1 hd with hd | hd
    · obtain ⟨c, -, rfl⟩ := List.mem_map.1 hd
      exact Nat.succ_pos _
    · obtain ⟨⟨site, i⟩, hcell, rfl⟩ := List.mem_map.1 hd
      exact Nat.succ_lt_succ (visible_of_ofProgram h (Grid.mem_toList.1 hcell)).2

omit h in
theorem leastHeights_eq : raiseAll? m.visibleRows.length (m.heightDemands f s) =
    some (m.minHeights f s) := by
  have hdemands (demand : Channel → List Int) (r : Nat) :
      demandsAt (m.rowDemands demand) r = m.visibleRows[r]?.toList.flatMap demand := by
    have hzip := demandsAt_zipIdx m.visibleRows demand 0 r
    rwa [Nat.zero_add] at hzip
  have hbounds (demand : Channel → List Int) :
      ∀ d ∈ m.rowDemands demand, d.1 < m.visibleRows.length := by
    intro d hd
    obtain ⟨⟨c, row⟩, hrow, hd⟩ := List.mem_flatMap.1 hd
    obtain ⟨_, -, rfl⟩ := List.mem_map.1 hd
    exact (List.getElem?_eq_some_iff.1 (List.mem_zipIdx_iff_getElem?.1 hrow)).1
  rw [raiseAll?_eq]
  · refine congrArg some (List.ext_getElem? fun r => ?_)
    rw [List.getElem?_map, minHeights, List.getElem?_map]
    cases hr : m.visibleRows[r]? with
    | none =>
      rw [List.getElem?_eq_none (by simpa using hr)]
      rfl
    | some c =>
      have hlt := (List.getElem?_eq_some_iff.1 hr).1
      have hall : demandsAt (m.heightDemands f s) r = f.lineHeight ::
          (m.grid.rows.getD c []).map fun cell => ((cell.2.glyphAt c).minSize f s).height := by
        rw [heightDemands, demandsAt_append, hdemands, hdemands, hr]
        simp
      rw [List.getElem?_range hlt, Option.map_some, hall]
      rfl
  · intro d hd
    rcases List.mem_append.1 hd with hd | hd
    · exact hbounds _ d hd
    · exact hbounds _ d hd

end LeastSizes

end Circuit

/-! ## Lists without failures -/

section Lists

variable {α β γ : Type}

theorem mapM_eq_some {f : α → Option β} {g : α → β} {l : List α}
    (h : ∀ a ∈ l, f a = some (g a)) : l.mapM f = some (l.map g) := by
  induction l with
  | nil => rfl
  | cons a l ih =>
    rw [List.mapM_cons, h a List.mem_cons_self, ih fun b hb => h b (List.mem_cons_of_mem _ hb)]
    rfl

theorem flatMapM_eq (f : α → Option (List β)) (l : List α) :
    l.flatMapM f = (l.mapM f).map List.flatten := by
  induction l with
  | nil => rfl
  | cons a l ih =>
    rw [List.flatMapM_cons, List.mapM_cons, ih]
    cases f a with
    | none => rfl
    | some b => cases l.mapM f <;> rfl

theorem mapM_zipIdx_eq_some {f : α → β} {g : β × Nat → Option γ} {k : α → γ} {l : List α} {n : Nat}
    (h : ∀ r a, l[r]? = some a → g (f a, n + r) = some (k a)) :
    ((l.map f).zipIdx n).mapM g = some (l.map k) := by
  induction l generalizing n with
  | nil => rfl
  | cons a l ih =>
    have hhead := h 0 a rfl
    have hrest := ih (n := n + 1) fun r b hb => by
      rw [Nat.add_assoc, Nat.add_comm 1]
      exact h (r + 1) b hb
    rw [List.map_cons, List.zipIdx_cons, List.mapM_cons, hrest]
    rw [Nat.add_zero] at hhead
    rw [hhead]
    rfl

theorem mapM_filterMap_eq_some {f : α → Option β} {g : β → Option γ} {k : α → Option γ}
    {l : List α} (h : ∀ a ∈ l, (f a).map g = (k a).map some) :
    (l.filterMap f).mapM g = some (l.filterMap k) := by
  induction l with
  | nil => rfl
  | cons a l ih =>
    have ha := h a List.mem_cons_self
    have ih := ih fun b hb => h b (List.mem_cons_of_mem _ hb)
    cases hf : f a with
    | none =>
      have hk : k a = none := by simpa [hf] using ha.symm
      rw [List.filterMap_cons_none hf, List.filterMap_cons_none hk, ih]
    | some b =>
      obtain ⟨c, hk, hb⟩ : ∃ c, k a = some c ∧ some c = g b := by simpa [hf] using ha.symm
      rw [List.filterMap_cons_some hf, List.filterMap_cons_some hk, List.mapM_cons, ← hb, ih]
      rfl

end Lists

/-! ## Places -/

namespace Scene

section Places

variable {m : Circuit} {surface : Size} {f : TextMetrics} {s : LayoutSettings}
  {d : m.Division surface f s}

theorem cell?_label {r : Nat} {row : Row} (hrow : d.scene.rows[r]? = some row) :
    d.scene.frame.cell? 0 r = some (.ofBands d.scene.labelBand row.band) := by
  have hlabel : d.scene.frame.columns[0]? = some d.scene.labelBand := by
    have hlength := d.length_widths
    unfold labelBand
    show (bandsFrom 0 d.widths)[0]? = some ⟨0, d.widths.headD 0⟩
    cases hwidths : d.widths with
    | nil =>
      rw [hwidths] at hlength
      cases hlength
    | cons w widths => rfl
  rw [Frame.cell?, hlabel, (getElem?_rows.1 hrow).2]
  rfl

theorem cell?_eq {k r : Nat} {column : Column} {row : Row}
    (hcolumn : d.scene.columns[k]? = some column) (hrow : d.scene.rows[r]? = some row) :
    d.scene.frame.cell? (k + 1) r = some (.ofBands column.band row.band) := by
  rw [Frame.cell?, (getElem?_columns.1 hcolumn).2.2, (getElem?_rows.1 hrow).2]
  rfl

end Places

end Scene

namespace Circuit

section Places

variable {source : Text} {m : Circuit} (h : ofProgram source = .ok m) {surface : Size}
  {f : TextMetrics} {s : LayoutSettings} (d : m.Division surface f s)

theorem labelsByPosition?_eq : m.labelsByPosition? f d.scene.frame = some d.scene.labels := by
  rw [labelsByPosition?, ← Scene.map_channel_rows d]
  refine mapM_zipIdx_eq_some fun r row hrow => ?_
  rw [Nat.zero_add]
  show (d.scene.frame.cell? 0 r).bind _ = _
  rw [Scene.cell?_label hrow]
  rfl

include h

theorem elementsByPosition?_eq :
    m.elementsByPosition? f s d.scene.frame = some d.scene.elements := by
  rw [elementsByPosition?, flatMapM_eq, ← Scene.map_channel_rows d,
    mapM_zipIdx_eq_some (k := fun row => d.scene.columns.filterMap (d.scene.element? row))]
  · rfl
  intro r row hrow
  show (m.grid.rows.getD row.channel []).mapM _ = _
  rw [getD_rows_grid h, rowCells, ← Scene.map_index_columns d, List.filterMap_map]
  refine mapM_filterMap_eq_some fun column hcolumn => ?_
  have hcell := Scene.cell?_eq (Scene.getElem?_index hcolumn) hrow
  rw [Function.comp_apply, Option.map_map, Scene.element?, Option.map_map]
  refine congrArg (Option.map · (m.grid.get? row.channel column.index)) (funext fun i => ?_)
  show (d.scene.frame.cell? (column.index + 1) (0 + r)).bind _ = _
  rw [Nat.zero_add, hcell]
  rfl

end Places

end Circuit

end QuantumDiagram
