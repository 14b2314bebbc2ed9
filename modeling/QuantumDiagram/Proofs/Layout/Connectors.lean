import QuantumDiagram.Proofs.Layout.Passage

/-!
# The connectors of a layout

An instruction with several participants has one connector in its column, which leads from its
topmost participant through the rows below down to the lowest one (`Layout.IsConnector`). On its way
it passes the elements of other instructions, and crosses none of the column
(`Circuit.connectors_layout`).
-/

namespace QuantumDiagram

namespace Layout

/-- What a layout has for the connector of an instruction in column `k`, with its place `band`: the
pieces lead from the element of the topmost participant in row `a` down to that of the lowest one in
row `b`. -/
structure IsConnector (l : Layout) (k : Nat) (i : Instruction) (a b : Nat) (top bottom : Element)
    (band : Band) (pieces : List Segment) : Prop where
  band_eq : l.frame.columns[k + 1]? = some band
  topmost : i.participants.first? = some top.channel
  lowest : i.participants.last? = some bottom.channel
  top_eq : l.rows[a]? = some top.channel ∧ l.element? top.channel k = some top
  bottom_eq : l.rows[b]? = some bottom.channel ∧ l.element? bottom.channel k = some bottom
  downwards : a < b
  length_eq : pieces.length = b - a
  /-- In each row below the topmost one there is one piece in the middle of the column. -/
  passes : Passes (.connector (.ofClassical i.isClassicalLink) band.center) top.bounds.bottom pieces
    (((l.rows.drop (a + 1)).take (b - a)).map fun c => (l.element? c k).map (·.bounds.vertical))
    bottom.bounds.bottom
  /-- The first piece begins under the topmost element, and the last one ends over the lowest. -/
  ends : pieces.head?.map (·.start.y) = some top.bounds.bottom ∧
    pieces.getLast?.map (·.stop.y) = some bottom.bounds.y
  double : ∀ p ∈ pieces, p.style = .double ↔
    i.classicalControl = true ∨ ∃ c ∈ i.participants, c.isClassical = true
  /-- No piece crosses an element of the column. -/
  clear : ∀ p ∈ pieces, ∀ e ∈ l.elements, e.column = k →
    e.bounds.bottom ≤ p.start.y ∨ p.stop.y ≤ e.bounds.y

/-- The connectors in column `k`, each with its instruction: there is one for each instruction with
several participants and for no other one, and they come in the order of the topmost
participants. -/
structure AreConnectors (l : Layout) (m : Circuit) (k : Nat)
    (chains : List (Instruction × List Segment)) : Prop where
  mem_iff : ∀ i, (∃ pieces, (i, pieces) ∈ chains) ↔
    2 ≤ i.participants.size ∧ ∃ c, m.grid.get? c k = some i
  ordered : chains.Pairwise fun x y => ∃ c d, x.1.participants.first? = some c ∧
    y.1.participants.first? = some d ∧ compare c d = .lt
  each : ∀ i pieces, (i, pieces) ∈ chains → ∃ a b top bottom band,
    l.IsConnector k i a b top bottom band pieces

/-- The connectors of the layout are those of the columns of the circuit, one column after the
other. -/
def Connected (l : Layout) (m : Circuit) : Prop :=
  ∃ chains : List (List (Instruction × List Segment)),
    l.segmentsOf .connector = chains.flatten.flatMap Prod.snd ∧ chains.length = m.columns ∧
      ∀ k chainsThere, chains[k]? = some chainsThere → l.AreConnectors m k chainsThere

end Layout

/-! ## Topmost and lowest participants -/

namespace ChannelSet

theorem mem_of_first? {s : ChannelSet} {c : Channel} (h : s.first? = some c) : c ∈ s :=
  List.mem_of_head? h

theorem mem_of_last? {s : ChannelSet} {c : Channel} (h : s.last? = some c) : c ∈ s :=
  List.mem_of_getLast? h

/-- Of two or more members, the topmost one is above the lowest one. -/
theorem exists_last?_of_first? {s : ChannelSet} {c : Channel} (h : 2 ≤ s.size)
    (hfirst : s.first? = some c) : ∃ d, s.last? = some d ∧ compare c d = .lt := by
  obtain ⟨members, hmembers⟩ := s
  match members, hmembers, h with
  | topmost :: second :: rest, hmembers, _ =>
    cases hfirst
    have hsome : (second :: rest).getLast?.isSome := List.getLast?_isSome.2 (List.cons_ne_nil _ _)
    obtain ⟨d, hd⟩ := Option.isSome_iff_exists.1 hsome
    refine ⟨d, ?_, List.rel_of_pairwise_cons hmembers (List.mem_of_getLast? hd)⟩
    show (c :: second :: rest).getLast? = some d
    rw [List.getLast?_cons_cons, hd]

theorem exists_first? {s : ChannelSet} (h : 2 ≤ s.size) : ∃ c, s.first? = some c := by
  obtain ⟨members, hmembers⟩ := s
  match members, hmembers, h with
  | first :: rest, _, _ => exact ⟨first, rfl⟩

end ChannelSet

theorem Instruction.role_eq_singleChannel {i : Instruction} :
    i.role = .singleChannel ↔ i.participants.size < 2 := by
  unfold role
  by_cases hsize : i.participants.size < 2
  · rw [if_pos hsize]
    exact ⟨fun _ => hsize, fun _ => rfl⟩
  · rw [if_neg hsize]
    refine ⟨fun hrole => ?_, fun hsize' => absurd hsize' hsize⟩
    split at hrole <;> cases hrole

theorem Instruction.isClassicalLink_iff {i : Instruction} : i.isClassicalLink = true ↔
    i.classicalControl = true ∨ ∃ c ∈ i.participants, c.isClassical = true := by
  rw [isClassicalLink, Bool.or_eq_true, ChannelSet.any, List.any_eq_true]
  rfl

theorem LineStyle.ofClassical_eq_double {classical : Bool} :
    ofClassical classical = .double ↔ classical = true := by
  cases classical <;> decide

/-! ## Connectors of a scene -/

namespace Scene

/-- A cell of a column, with what its element takes up of the column. -/
def connectorCell (s : Scene) (column : Column) (row : Row) : Band × Option Band :=
  (row.band, (s.element? row column).map (·.bounds.vertical))

theorem metByConnector_eq (s : Scene) (column : Column) :
    s.metByConnector column = met ∘ s.connectorCell column := by
  funext row
  simp only [metByConnector, Function.comp_apply, met, connectorCell]
  cases s.element? row column <;> rfl

/-- The instruction whose connector begins in a row: it has several participants, and this is the
row of the topmost one. -/
def begun? (s : Scene) (column : Column) (row : Row) : Option Instruction :=
  (s.circuit.grid.get? row.channel column.index).filter fun i =>
    2 ≤ i.participants.size ∧ i.participants.first? = some row.channel

section Connector

variable {s : Scene} {column : Column} {row : Row} {i : Instruction}

theorem begun?_eq_some : s.begun? column row = some i ↔
    s.circuit.grid.get? row.channel column.index = some i ∧ 2 ≤ i.participants.size ∧
      i.participants.first? = some row.channel := by
  rw [begun?, Option.filter_eq_some_iff, decide_eq_true_eq]

/-- No connector begins in the cell of an instruction that is alone or has a topmost cell above. -/
theorem passed_over_of_begun? (h : s.begun? column row = none)
    (hi : s.circuit.grid.get? row.channel column.index = some i) :
    i.role = .singleChannel ∨ i.participants.first? ≠ some row.channel := by
  rw [begun?, hi, Option.filter_eq_none_iff] at h
  have hnot := h i rfl
  rw [decide_eq_true_eq, not_and_or, Nat.not_le] at hnot
  exact hnot.imp Instruction.role_eq_singleChannel.2 id

theorem not_passed_over_of_begun? (h : s.begun? column row = some i) :
    ¬(i.role = .singleChannel ∨ i.participants.first? ≠ some row.channel) := by
  obtain ⟨-, hseveral, hfirst⟩ := begun?_eq_some.1 h
  rw [Instruction.role_eq_singleChannel, not_or, Nat.not_lt, not_not]
  exact ⟨hseveral, hfirst⟩

theorem connector_eq_nil (h : s.begun? column row = none) (below : List Row) :
    s.connector column row below = [] := by
  unfold connector
  cases hi : s.circuit.grid.get? row.channel column.index with
  | none => rfl
  | some i => exact if_pos (passed_over_of_begun? h hi)

theorem connector_eq (h : s.begun? column row = some i) {lowest : Channel}
    (hlast : i.participants.last? = some lowest) (below : List Row) :
    s.connector column row below =
      piecesBetween (.connector (.ofClassical i.isClassicalLink) column.band.center)
        ((row :: below.takeWhile fun r => compare r.channel lowest ≠ .gt).map
          (s.metByConnector column)) := by
  rw [connector, (begun?_eq_some.1 h).1]
  simp only [if_neg (not_passed_over_of_begun? h), hlast]

end Connector

/-- The connectors in a column that begin in the given rows, each with its instruction. -/
def chainsIn (s : Scene) (column : Column) : List Row → List (Instruction × List Segment)
  | [] => []
  | row :: below =>
    ((s.begun? column row).map (·, s.connector column row below)).toList ++ s.chainsIn column below

theorem connectorsIn_eq (s : Scene) (column : Column) (rows : List Row) :
    s.connectorsIn column rows = (s.chainsIn column rows).flatMap Prod.snd := by
  induction rows with
  | nil => rfl
  | cons row below ih =>
    rw [connectorsIn_cons, chainsIn, List.flatMap_append, ← ih]
    cases h : s.begun? column row with
    | none => rw [connector_eq_nil h]; rfl
    | some i => simp

theorem mem_chainsIn {s : Scene} {column : Column} {rows : List Row}
    {chain : Instruction × List Segment} : chain ∈ s.chainsIn column rows ↔
      ∃ above row below, rows = above ++ row :: below ∧ s.begun? column row = some chain.1 ∧
        s.connector column row below = chain.2 := by
  induction rows with
  | nil => simp [chainsIn]
  | cons row below ih =>
    rw [chainsIn, List.mem_append, ih, Option.mem_toList, Option.map_eq_some_iff]
    constructor
    · rintro (⟨i, hi, rfl⟩ | ⟨above, row', below', rfl, hchain⟩)
      · exact ⟨[], row, below, rfl, hi, rfl⟩
      · exact ⟨row :: above, row', below', rfl, hchain⟩
    · rintro ⟨above, row', below', hsplit, hi, hchain⟩
      cases above with
      | nil =>
        cases hsplit
        exact .inl ⟨chain.1, hi, Prod.ext rfl hchain⟩
      | cons r above =>
        cases hsplit
        exact .inr ⟨above, row', below', rfl, hi, hchain⟩

/-- The connectors of a column come in the order of their topmost rows. -/
theorem pairwise_chainsIn {s : Scene} {column : Column} {rows : List Row}
    (h : (rows.map Row.channel).Pairwise fun c d => compare c d = .lt) :
    (s.chainsIn column rows).Pairwise fun x y => ∃ c d,
      x.1.participants.first? = some c ∧ y.1.participants.first? = some d ∧
        compare c d = .lt := by
  induction rows with
  | nil => exact .nil
  | cons row below ih =>
    obtain ⟨habove, hbelow⟩ := List.pairwise_cons.1 h
    refine List.pairwise_append.2 ⟨?_, ih hbelow, fun x hx y hy => ?_⟩
    · cases s.begun? column row with
      | none => exact .nil
      | some i => exact List.pairwise_singleton _ _
    · obtain ⟨i, hi, rfl⟩ := Option.map_eq_some_iff.1 (Option.mem_toList.1 hx)
      obtain ⟨_, row', _, rfl, hj, -⟩ := mem_chainsIn.1 hy
      exact ⟨_, _, (begun?_eq_some.1 hi).2.2, (begun?_eq_some.1 hj).2.2,
        habove _ (List.mem_map_of_mem (by simp))⟩

theorem lt_of_mem_above {above below : List Row} {low : Row}
    (h : ((above ++ low :: below).map Row.channel).Pairwise fun c d => compare c d = .lt) {r : Row}
    (hr : r ∈ above) : compare r.channel low.channel = .lt := by
  rw [List.map_append, List.map_cons] at h
  exact (List.pairwise_append.1 h).2.2 _ (List.mem_map_of_mem hr) _ List.mem_cons_self

/-- In rows by channel, those down to a lowest one are the rows above it and the lowest itself. -/
theorem takeWhile_lowest {between beyond : List Row} {low : Row}
    (h : ((between ++ low :: beyond).map Row.channel).Pairwise fun c d => compare c d = .lt) :
    (between ++ low :: beyond).takeWhile (fun r => compare r.channel low.channel ≠ .gt) =
      between ++ [low] := by
  rw [List.takeWhile_append_of_pos fun r hr => by simp [lt_of_mem_above h hr],
    List.takeWhile_cons_of_pos (by simp)]
  cases beyond with
  | nil => rfl
  | cons r beyond =>
    have hgt : compare low.channel r.channel = .lt := by
      rw [List.map_append, List.map_cons] at h
      exact List.rel_of_pairwise_cons (List.pairwise_append.1 h).2.1 List.mem_cons_self
    rw [List.takeWhile_cons_of_neg (by simp [Std.OrientedCmp.gt_of_lt hgt])]

section Chain

variable {source : Text} {m : Circuit} {surface : Size} {f : TextMetrics} {s : LayoutSettings}
  {d : m.Division surface f s} {column : Column} {i : Instruction} {above below : List Row}
  {row : Row}

theorem pairwise_below (hrows : d.scene.rows = above ++ row :: below) :
    (below.map Row.channel).Pairwise fun c d => compare c d = .lt := by
  have hsorted := m.pairwise_visibleRows
  rw [← map_channel_rows d, hrows, List.map_append, List.map_cons] at hsorted
  exact (List.pairwise_append.1 hsorted).2.1.of_cons

/-- The lowest participant of an instruction is in one of the rows below the topmost one. -/
theorem exists_lowest (h : Circuit.ofProgram source = .ok m)
    (hrows : d.scene.rows = above ++ row :: below) (hi : d.scene.begun? column row = some i) :
    ∃ between low beyond,
      below = between ++ low :: beyond ∧ i.participants.last? = some low.channel ∧
        m.grid.get? low.channel column.index = some i := by
  obtain ⟨hcell, hseveral, hfirst⟩ := begun?_eq_some.1 hi
  obtain ⟨c, hlast, hlt⟩ := ChannelSet.exists_last?_of_first? hseveral hfirst
  have hlowest : m.grid.get? c column.index = some i :=
    (Circuit.consistent_ofProgram h).shared hcell c (ChannelSet.mem_of_last? hlast)
  have hvisible := (Circuit.visible_of_ofProgram h hlowest).1
  have hsorted := m.pairwise_visibleRows
  rw [← map_channel_rows d, hrows, List.map_append, List.map_cons] at hvisible hsorted
  obtain ⟨-, -, hbefore⟩ := List.pairwise_append.1 hsorted
  -- A row above the topmost one, or this row itself, comes before the lowest participant.
  have hbelow : c ∈ below.map Row.channel := by
    rcases List.mem_append.1 hvisible with hc | hc
    · have hgt := hbefore c hc _ List.mem_cons_self
      rw [Std.OrientedCmp.gt_of_lt hlt] at hgt
      cases hgt
    · rcases List.mem_cons.1 hc with rfl | hc
      · exact absurd rfl (Channel.ne_of_lt hlt)
      · exact hc
  obtain ⟨low, hlow, rfl⟩ := List.mem_map.1 hbelow
  obtain ⟨between, beyond, hsplit⟩ := List.append_of_mem hlow
  exact ⟨between, low, beyond, hsplit, hlast, hlowest⟩

theorem metByConnector_of_element? {scene : Scene} {r : Row} {e : Element}
    (he : scene.element? r column = some e) :
    scene.metByConnector column r = e.bounds.vertical := by
  rw [metByConnector, he]

theorem inside_metByConnector (hcolumn : column ∈ d.scene.columns) {r : Row}
    (hr : r ∈ d.scene.rows) : (d.scene.metByConnector column r).Inside r.band := by
  rw [metByConnector]
  cases he : d.scene.element? r column with
  | none => exact Band.inside_last (nonneg_of_mem_rows hr)
  | some e =>
    exact (inside_of_element? he (nonneg_of_mem_columns hcolumn) (nonneg_of_mem_rows hr)).2

variable {between beyond : List Row} {low : Row}

/-- The connector consists of the pieces between what is met from the topmost row to the lowest. -/
theorem connector_eq_piecesBetween
    (hrows : d.scene.rows = above ++ row :: (between ++ low :: beyond))
    (hi : d.scene.begun? column row = some i) (hlast : i.participants.last? = some low.channel) :
    d.scene.connector column row (between ++ low :: beyond) =
      piecesBetween (.connector (.ofClassical i.isClassicalLink) column.band.center)
        ((row :: (between ++ [low])).map (d.scene.metByConnector column)) := by
  rw [connector_eq hi hlast, takeWhile_lowest (pairwise_below hrows)]

theorem passes_connector (hrows : d.scene.rows = above ++ row :: (between ++ low :: beyond))
    (hcolumn : column ∈ d.scene.columns) (hi : d.scene.begun? column row = some i)
    (hlast : i.participants.last? = some low.channel) {top bottom : Element}
    (htop : d.scene.element? row column = some top)
    (hbottom : d.scene.element? low column = some bottom) :
    Passes (.connector (.ofClassical i.isClassicalLink) column.band.center) top.bounds.bottom
      (d.scene.connector column row (between ++ low :: beyond))
      ((between ++ [low]).map fun r => (d.scene.element? r column).map (·.bounds.vertical))
      bottom.bounds.bottom := by
  let cells := (between ++ [low]).map (d.scene.connectorCell column)
  have hrow : row ∈ d.scene.rows := by simp [hrows]
  obtain ⟨stop, hlaid⟩ : ∃ stop, Laid row.band.stop (cells.map Prod.fst) stop := by
    obtain ⟨stop, hlaid⟩ := exists_laid_rows d
    rw [hrows, List.map_append, laid_append] at hlaid
    obtain ⟨_, -, -, -, hbelow⟩ := hlaid
    rw [List.append_cons, List.map_append, laid_append] at hbelow
    obtain ⟨stop, hlaid, -⟩ := hbelow
    rw [List.map_map]
    exact ⟨stop, hlaid⟩
  have hinside : ∀ cell ∈ cells, ∀ b ∈ cell.2, b.Inside cell.1 := by
    intro cell hcell b hb
    obtain ⟨r, hr, rfl⟩ := List.mem_map.1 hcell
    obtain ⟨e, he, rfl⟩ := Option.map_eq_some_iff.1 hb
    have hr : r ∈ d.scene.rows := by
      rw [hrows, List.append_cons between]
      exact List.mem_append_right _ (List.mem_cons_of_mem _ (List.mem_append_left _ hr))
    exact (inside_of_element? he (nonneg_of_mem_columns hcolumn) (nonneg_of_mem_rows hr)).2
  have hfirst : top.bounds.vertical.stop ≤ row.band.stop :=
    (inside_of_element? htop (nonneg_of_mem_columns hcolumn) (nonneg_of_mem_rows hrow)).2.stop
  have hmet : cells.map met = (between ++ [low]).map (d.scene.metByConnector column) := by
    rw [metByConnector_eq, List.map_map]
  have hend : (top.bounds.vertical :: cells.map met).getLast? = some bottom.bounds.vertical := by
    rw [hmet, List.map_append, ← List.cons_append, ← metByConnector_of_element? hbottom]
    exact List.getLast?_concat
  have hpasses := passes_piecesBetween
    (.connector (.ofClassical i.isClassicalLink) column.band.center) hlaid hinside hfirst hend
  have hcells : cells.map Prod.snd =
      (between ++ [low]).map fun r => (d.scene.element? r column).map (·.bounds.vertical) :=
    List.map_map
  rw [hmet, hcells] at hpasses
  rw [connector_eq_piecesBetween hrows hi hlast, List.map_cons, metByConnector_of_element? htop]
  exact hpasses

/-- No piece of the connector crosses an element of the column, whichever row it is in. -/
theorem clear_connector (hrows : d.scene.rows = above ++ row :: (between ++ low :: beyond))
    (hcolumn : column ∈ d.scene.columns) (hi : d.scene.begun? column row = some i)
    (hlast : i.participants.last? = some low.channel) {p : Segment}
    (hp : p ∈ d.scene.connector column row (between ++ low :: beyond)) {r : Row}
    (hr : r ∈ d.scene.rows) {e : Element} (he : d.scene.element? r column = some e) :
    e.bounds.bottom ≤ p.start.y ∨ p.stop.y ≤ e.bounds.y := by
  let met := d.scene.metByConnector column
  obtain ⟨stop, hlaid⟩ := exists_laid_rows d
  have hfollow := hlaid.pairwise_inside fun r hr => inside_metByConnector hcolumn hr
  have hpositive : ∀ b ∈ d.scene.rows.map met, b.start ≤ b.stop := by
    intro b hb
    obtain ⟨r, hr, rfl⟩ := List.mem_map.1 hb
    exact Band.start_le_stop (inside_metByConnector hcolumn hr).length
  have hsplit : d.scene.rows.map met =
      above.map met ++ (row :: (between ++ [low])).map met ++ beyond.map met := by
    simp [hrows]
  rw [connector_eq_piecesBetween hrows hi hlast] at hp
  rw [hsplit] at hfollow hpositive
  obtain ⟨y₁, y₂, rfl, hclear⟩ := clear_piecesBetween hfollow hpositive hp
  rw [← hsplit] at hclear
  have hmet : met r = e.bounds.vertical := metByConnector_of_element? he
  have hb := hclear _ (List.mem_map_of_mem hr)
  rwa [hmet] at hb

end Chain

end Scene

/-! ## Connectors of a layout -/

namespace Layout

section Connector

variable {source : Text} {m : Circuit} {surface : Size} {f : TextMetrics} {s : LayoutSettings}
  {d : m.Division surface f s} {column : Scene.Column} {i : Instruction}
  {above below : List Scene.Row} {row : Scene.Row}

/-- The layout finds the elements in the rows from below the topmost one to the lowest. -/
theorem map_passed {between beyond : List Scene.Row} {low : Scene.Row}
    (hrows : d.scene.rows = above ++ row :: (between ++ low :: beyond))
    (hcolumn : column ∈ d.scene.columns) :
    ((d.layout.rows.drop (above.length + 1)).take (between.length + 1)).map (fun c =>
        (d.layout.element? c column.index).map (·.bounds.vertical)) =
      (between ++ [low]).map fun r => (d.scene.element? r column).map (·.bounds.vertical) := by
  have hchannels : d.layout.rows = d.scene.rows.map Scene.Row.channel :=
    (Scene.map_channel_rows d).symm
  have hdrop : d.scene.rows.drop (above.length + 1) = between ++ low :: beyond := by
    rw [hrows, List.append_cons above]
    exact List.drop_left' (by simp)
  have htake : (between ++ low :: beyond).take (between.length + 1) = between ++ [low] := by
    rw [List.append_cons between]
    exact List.take_left' (by simp)
  rw [hchannels, ← List.map_drop, hdrop, ← List.map_take, htake, List.map_map]
  refine List.map_congr_left fun r hr => congrArg _ (element?_eq ?_ hcolumn)
  rw [hrows, List.append_cons between]
  exact List.mem_append_right _ (List.mem_cons_of_mem _ (List.mem_append_left _ hr))

/-- The connector of the scene that begins in a row is that of its instruction. -/
theorem isConnector_connector (h : Circuit.ofProgram source = .ok m)
    (hcolumn : column ∈ d.scene.columns) (hrows : d.scene.rows = above ++ row :: below)
    (hi : d.scene.begun? column row = some i) : ∃ a b top bottom band,
      d.layout.IsConnector column.index i a b top bottom band
        (d.scene.connector column row below) := by
  obtain ⟨between, low, beyond, rfl, hlast, hlow⟩ := Scene.exists_lowest h hrows hi
  obtain ⟨hcell, -, hfirst⟩ := Scene.begun?_eq_some.1 hi
  have hchannels : d.layout.rows = (above ++ row :: (between ++ low :: beyond)).map
      Scene.Row.channel := by
    rw [← hrows]
    exact (Scene.map_channel_rows d).symm
  have hrow : row ∈ d.scene.rows := by simp [hrows]
  have hlowrow : low ∈ d.scene.rows := by simp [hrows]
  obtain ⟨top, htop⟩ : ∃ top, d.scene.element? row column = some top :=
    ⟨_, Scene.element?_eq_some.2 ⟨i, hcell, rfl⟩⟩
  obtain ⟨bottom, hbottom⟩ : ∃ bottom, d.scene.element? low column = some bottom :=
    ⟨_, Scene.element?_eq_some.2 ⟨i, hlow, rfl⟩⟩
  have htopchannel := (Scene.site_of_element? htop).1
  have hlowchannel := (Scene.site_of_element? hbottom).1
  have hpasses := Scene.passes_connector hrows hcolumn hi hlast htop hbottom
  have hpassed := map_passed hrows hcolumn
  refine ⟨above.length, above.length + (between.length + 1), top, bottom, column.band, ?_⟩
  constructor
  case band_eq =>
    exact (Scene.getElem?_columns.1 (Scene.getElem?_index hcolumn)).2.2
  case topmost => rw [htopchannel, hfirst]
  case lowest => rw [hlowchannel, hlast]
  case top_eq =>
    rw [htopchannel, hchannels]
    refine ⟨by simp, ?_⟩
    rw [element?_eq hrow hcolumn, htop]
  case bottom_eq =>
    rw [hlowchannel, hchannels]
    refine ⟨by simp, ?_⟩
    rw [element?_eq hlowrow hcolumn, hbottom]
  case downwards => omega
  case length_eq =>
    have hlength := hpasses.length_eq
    simp only [List.length_map, List.length_append, List.length_singleton] at hlength
    omega
  case passes =>
    rw [Nat.add_sub_cancel_left, hpassed]
    exact hpasses
  case ends =>
    obtain ⟨y, hhead⟩ := hpasses.head?_eq (by simp)
    obtain ⟨y', hend⟩ := hpasses.getLast?_eq (b := bottom.bounds.vertical) (by simp [hbottom])
    rw [hhead, hend]
    exact ⟨rfl, rfl⟩
  case double =>
    intro p hp
    obtain ⟨y₁, y₂, -, rfl⟩ := hpasses.exists_of_mem hp
    rw [← Instruction.isClassicalLink_iff]
    exact LineStyle.ofClassical_eq_double
  case clear =>
    intro p hp e he hindex
    obtain ⟨r, hr, column', hcolumn', he⟩ := Scene.mem_elements.1 he
    have hcolumns := Scene.eq_of_index_eq hcolumn hcolumn'
      (hindex.symm.trans (Scene.site_of_element? he).2)
    exact Scene.clear_connector hrows hcolumn hi hlast hp hr (hcolumns ▸ he)

end Connector

end Layout

namespace Circuit

theorem Division.connected {source : Text} {m : Circuit} {surface : Size} {f : TextMetrics}
    {s : LayoutSettings} (d : m.Division surface f s) (h : ofProgram source = .ok m) :
    d.layout.Connected m := by
  have hchannels : d.scene.rows.map Scene.Row.channel = m.visibleRows := Scene.map_channel_rows d
  refine ⟨d.scene.columns.map (d.scene.chainsIn · d.scene.rows), ?_, ?_, fun k chains hk => ?_⟩
  · rw [Layout.segmentsOf_connector, Scene.connectors, ← List.flatMap_def, List.flatMap_assoc]
    exact congrArg (d.scene.columns.flatMap ·)
      (funext fun column => d.scene.connectorsIn_eq column _)
  · have hlength := congrArg List.length (Scene.map_index_columns d)
    rw [List.length_map, List.length_range] at hlength
    rw [List.length_map]
    exact hlength
  rw [List.getElem?_map] at hk
  obtain ⟨column, hcolumn, rfl⟩ := Option.map_eq_some_iff.1 hk
  obtain ⟨-, rfl, -⟩ := Scene.getElem?_columns.1 hcolumn
  have hcolumn := List.mem_of_getElem? hcolumn
  constructor
  case mem_iff =>
    refine fun i => ⟨?_, ?_⟩
    · rintro ⟨pieces, hpieces⟩
      obtain ⟨_, row, _, -, hi, -⟩ := Scene.mem_chainsIn.1 hpieces
      obtain ⟨hcell, hseveral, -⟩ := Scene.begun?_eq_some.1 hi
      exact ⟨hseveral, row.channel, hcell⟩
    · rintro ⟨hseveral, c, hcell⟩
      -- The topmost participant shows the instruction too, in a visible row.
      obtain ⟨topmost, hfirst⟩ := ChannelSet.exists_first? hseveral
      have hfirstcell := (consistent_ofProgram h).shared hcell topmost
        (ChannelSet.mem_of_first? hfirst)
      have hvisible := (visible_of_ofProgram h hfirstcell).1
      rw [← hchannels] at hvisible
      obtain ⟨row, hrow, rfl⟩ := List.mem_map.1 hvisible
      obtain ⟨above, below, hrows⟩ := List.append_of_mem hrow
      exact ⟨_, Scene.mem_chainsIn.2 ⟨above, row, below, hrows,
        Scene.begun?_eq_some.2 ⟨hfirstcell, hseveral, hfirst⟩, rfl⟩⟩
  case ordered =>
    refine Scene.pairwise_chainsIn ?_
    rw [hchannels]
    exact m.pairwise_visibleRows
  case each =>
    intro i pieces hpieces
    obtain ⟨above, row, below, hrows, hi, rfl⟩ := Scene.mem_chainsIn.1 hpieces
    exact Layout.isConnector_connector h hcolumn hrows hi

/-- **One connector for each instruction with several participants**, column by column and, in a
column, by topmost participant, whether the shares are computed exactly or in any arithmetic; no
other instruction has one. -/
theorem connectors_layout {source : Text} {m : Circuit} (h : ofProgram source = .ok m)
    (surface : Size) (f : TextMetrics) (s : LayoutSettings) :
    (m.layout surface f s).Connected m ∧
      ∀ a : Arithmetic, (m.layoutBy a surface f s).Connected m :=
  Division.forall_layout (·.Connected m) fun d => d.connected h

/-- A connector around the element of another instruction, and one through a row that is free in its
column. -/
theorem connectors_layout_crossing :
    let source := "qubits 3\ncnot q0, q2 | x q1\nmeasure q1".toList
    let f := FontMetrics.toTextMetrics ⟨10, 20⟩
    ∃ m, ofProgram source = .ok m ∧
      (m.layout ⟨160, 120⟩ f {}).segmentsOf .connector = [.connector .single 86 19 32,
        .connector .single 86 58 67, .connector .double 134 58 90, .connector .double 134 90 99] ∧
      (m.layout ⟨160, 120⟩ f {}).Connected m ∧
      ∀ a : Arithmetic, (m.layoutBy a ⟨160, 120⟩ f {}).Connected m := by
  intro source f
  have h : (ofProgram source).toOption.map (fun m =>
      (m.layout ⟨160, 120⟩ f {}).segmentsOf .connector) =
        some [.connector .single 86 19 32, .connector .single 86 58 67,
          .connector .double 134 58 90, .connector .double 134 90 99] := by
    decide +kernel
  obtain ⟨m, hm, hsegments⟩ := Option.map_eq_some_iff.1 h
  have hm := toOption_eq_some.1 hm
  exact ⟨m, hm, hsegments, connectors_layout hm _ f {}⟩

end Circuit

end QuantumDiagram
