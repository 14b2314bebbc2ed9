import QuantumDiagram.Proofs.Circuit.Consistency
import QuantumDiagram.Proofs.Program.Queue

/-!
# Columns without gaps

The columns that hold cells are always the first ones (`Grid.FillsTo`): as many as lie before the
current column of the run, and that one too while parts of a parallel line are still to come and one
has placed a gate (`State.Dense`). `Circuit.columns_dense` says so of every state that a run gets to
and of circuits, whose number of columns is the column that the run ends in. That no column is left
out is due to `Draft.execute_fills`: a statement that is said to place a gate fills a cell.
-/

namespace QuantumDiagram

namespace Grid

/-- The columns that hold a cell are the first `n`. -/
def FillsTo (g : Grid) (n : Nat) : Prop := ∀ k, (∃ c i, g.get? c k = some i) ↔ k < n

theorem fillsTo_empty : empty.FillsTo 0 := fun k => by simp

theorem Places.kept {g h : Grid} {is : List Instruction} (hp : g.Places is h) {c : Channel}
    {k : Nat} {i : Instruction} (hi : g.get? c k = some i) : h.get? c k = some i := by
  induction hp with
  | nil => exact hi
  | cons free _ ih => exact ih (get?_place_of_free free hi)

/-- A cell after instructions were placed is a cell of one of them or an old one. -/
theorem Places.cases {g h : Grid} {is : List Instruction} (hp : g.Places is h) {c : Channel}
    {k : Nat} {i : Instruction} (hi : h.get? c k = some i) :
    (∃ j ∈ is, j.column = k) ∨ g.get? c k = some i := by
  induction hp with
  | nil => exact .inr hi
  | cons _ _ ih =>
    obtain ⟨j, hj, hk⟩ | hi := ih hi
    · exact .inl ⟨j, List.mem_cons_of_mem _ hj, hk⟩
    · obtain ⟨-, -, hk⟩ | hi := get?_place_cases hi
      · exact .inl ⟨_, List.mem_cons_self, hk⟩
      · exact .inr hi

theorem Places.filled {g h : Grid} {is : List Instruction} (hp : g.Places is h) {i : Instruction}
    (hi : i ∈ is) {c : Channel} (hc : c ∈ i.participants) : h.get? c i.column = some i := by
  induction hp with
  | nil => cases hi
  | cons _ rest ih =>
    rcases List.mem_cons.1 hi with rfl | hi
    · refine rest.kept ?_
      rw [get?_place, if_pos ⟨hc, rfl⟩]
    · exact ih hi

theorem exists_of_lastColumn? {g : Grid} {k : Nat} (h : g.lastColumn? = some k) :
    ∃ c i, g.get? c k = some i := by
  obtain ⟨⟨s, i⟩, hmem, rfl⟩ := List.mem_map.1 (List.max?_mem h)
  exact ⟨s.channel, i, mem_toList.1 hmem⟩

theorem FillsTo.eq_zero_iff {g : Grid} {n : Nat} (h : g.FillsTo n) : n = 0 ↔ g.toList = [] := by
  constructor
  · rintro rfl
    refine List.eq_nil_iff_forall_not_mem.2 fun ⟨s, i⟩ hmem => ?_
    exact Nat.not_lt_zero _ ((h s.column).1 ⟨s.channel, i, mem_toList.1 hmem⟩)
  · intro hnil
    refine Nat.eq_zero_of_not_pos fun hpos => ?_
    obtain ⟨c, i, hi⟩ := (h 0).2 hpos
    have hmem : ((⟨c, 0⟩ : Site), i) ∈ g.toList := mem_toList.2 hi
    rw [hnil] at hmem
    cases hmem

end Grid

/-! ## A gate fills its column -/

/-- The least number of operands. -/
def Arity.least : Arity → Nat
  | exactly n => n
  | atLeast n => n

theorem Arity.least_le {a : Arity} {count : Nat} (h : a.accepts count = true) :
    a.least ≤ count := by
  cases a with
  | exactly n =>
    have h : count = n := by simpa [accepts] using h
    exact Nat.le_of_eq h.symm
  | atLeast n =>
    have h : n ≤ count := by simpa [accepts] using h
    exact h

/-- Each gate but the measurement needs a channel, beside its angle if it takes one. -/
theorem Catalog.least_of_mem_entries : ∀ entry ∈ entries, entry.gate ≠ .measure →
    (if entry.gate.takesAngle then 1 else 0) < entry.arity.least := by
  decide

namespace Draft

theorem splitAngle_length {p : Pending} {gate : Gate} {operands rest : List (Located Operand)}
    {angle : Option Float} (h : splitAngle p gate operands = .ok (angle, rest)) :
    operands.length ≤ rest.length + if gate.takesAngle then 1 else 0 := by
  unfold splitAngle at h
  split at h
  · rename_i hangle
    rw [if_pos hangle]
    split at h
    · cases h
      exact Nat.le_succ _
    · split at h
      · cases h
        rw [List.length_dropLast]
        omega
      · cases h
  · cases h
    exact Nat.le_add_right ..

theorem measure_fills {d e : Draft} {p : Pending} {operands : List (Channel × Span)}
    (hq : 0 < d.qubits) (h : d.measure p operands = .ok e) :
    ∃ c i, e.grid.get? c d.column = some i := by
  unfold measure at h
  obtain ⟨named, hnamed, h⟩ := bind_eq_ok.1 h
  obtain ⟨g, hg, rfl⟩ := foldlM_occupy_ok h
  have htarget : ∃ index, index ∈ if operands.isEmpty then List.range d.qubits else named := by
    split
    · exact ⟨0, List.mem_range.2 hq⟩
    · rename_i hne
      refine List.exists_mem_of_ne_nil _ fun hnil => hne ?_
      rw [List.isEmpty_iff_length_eq_zero, ← length_of_mapM_ok hnamed, hnil, List.length_nil]
  obtain ⟨index, hindex⟩ := htarget
  exact ⟨.qubit index, _, hg.filled (List.mem_map_of_mem hindex) (by simp [measurement])⟩

theorem placeGate_fills {d e : Draft} {p : Pending} {entry : Catalog.Entry}
    {operands : List (Located Operand)} (hq : 0 < d.qubits) (hentry : entry ∈ Catalog.entries)
    (harity : entry.arity.accepts operands.length = true)
    (h : d.placeGate p entry operands = .ok e) : ∃ c i, e.grid.get? c d.column = some i := by
  unfold placeGate at h
  obtain ⟨⟨angle, rest⟩, hangle, h⟩ := bind_eq_ok.1 h
  obtain ⟨channels, hchannels, h⟩ := bind_eq_ok.1 h
  split at h
  · exact measure_fills hq h
  · rename_i hgate
    obtain ⟨-, rfl⟩ := occupy_ok h
    have hpos : 0 < channels.length := by
      have h₁ := Catalog.least_of_mem_entries entry hentry hgate
      have h₂ := Arity.least_le harity
      have h₃ := splitAngle_length hangle
      rw [length_of_mapM_ok hchannels]
      omega
    have hmem := List.getElem_mem hpos
    exact ⟨channels[0], _, by rw [Grid.get?_place, if_pos ⟨ChannelSet.mem_ofList.2 hmem, rfl⟩]⟩

theorem instruct_fills {d e : Draft} {p : Pending} {keyword : Located Text}
    {operands : List (Located Operand)} (hq : 0 < d.qubits)
    (h : d.instruct p keyword operands = .ok (e, true)) :
    ∃ c i, e.grid.get? c d.column = some i := by
  unfold instruct at h
  dsimp only at h
  split at h
  · cases h
  · split at h
    · cases h
    · rename_i entry hentry
      split at h
      · rename_i harity
        split at h
        · obtain ⟨e, -, h⟩ := map_eq_ok.1 h
          cases h
        · obtain ⟨e, he, h⟩ := map_eq_ok.1 h
          cases h
          exact placeGate_fills hq (List.mem_of_find?_eq_some hentry) harity he
      · cases h

/-- **A statement that places a gate fills a cell** of the current column. -/
theorem execute_fills {d f : Draft} {p : Pending} (hq : 0 < d.qubits)
    (h : d.execute p = .ok (f, true)) : ∃ c i, f.grid.get? c d.column = some i := by
  unfold execute at h
  split at h
  · cases h
  · obtain ⟨e, he, h⟩ := bind_eq_ok.1 h
    obtain ⟨hqubits, -, -, hcolumn⟩ := left_frame (leaveSubroutine_ok he)
    split at h
    · cases h
    · split at h
      · cases h
      · obtain ⟨f, -, h⟩ := map_eq_ok.1 h
        cases h
      · rw [← hcolumn]
        exact instruct_fills (hqubits ▸ hq) h

/-! ## Cells that statements leave and add -/

theorem Effect.grid_eq {d e : Draft} (h : d.Effect e false) : e.grid = d.grid := by
  cases h with
  | nothing => rfl
  | header hclosed _ => exact (closeSubroutine_frame hclosed).2.2.1
  | naming _ => rfl

theorem Effect.kept {d e : Draft} {placed : Bool} (h : d.Effect e placed) {c : Channel} {k : Nat}
    {i : Instruction} (hi : d.grid.get? c k = some i) : e.grid.get? c k = some i := by
  cases placed with
  | false => rwa [h.grid_eq]
  | true =>
    cases h with
    | gates hplaced =>
      obtain ⟨is, g, -, hg, rfl⟩ := hplaced
      exact hg.kept hi

theorem Effect.cases {d e : Draft} {placed : Bool} (h : d.Effect e placed) {c : Channel} {k : Nat}
    {i : Instruction} (hi : e.grid.get? c k = some i) :
    (placed = true ∧ k = d.column) ∨ d.grid.get? c k = some i := by
  cases placed with
  | false =>
    rw [h.grid_eq] at hi
    exact .inr hi
  | true =>
    cases h with
    | gates hplaced =>
      obtain ⟨is, g, his, hg, rfl⟩ := hplaced
      obtain ⟨j, hj, rfl⟩ | hi := hg.cases hi
      · exact .inl ⟨rfl, (his j hj).1⟩
      · exact .inr hi

/-- Executing a statement changes no cell, and adds cells in the current column only. -/
theorem execute_grid {d f : Draft} {p : Pending} {placed : Bool}
    (h : d.execute p = .ok (f, placed)) {c : Channel} {k : Nat} {i : Instruction} :
    (d.grid.get? c k = some i → f.grid.get? c k = some i) ∧
      (f.grid.get? c k = some i → (placed = true ∧ k = d.column) ∨ d.grid.get? c k = some i) := by
  obtain ⟨e, hclosed, heffect⟩ := execute_ok h
  obtain ⟨-, -, hgrid, hcolumn⟩ := left_frame hclosed
  rw [← hgrid, ← hcolumn]
  exact ⟨heffect.kept, heffect.cases⟩

/-- A statement that places a gate fills the current column, if it was not filled yet. -/
theorem execute_fillsTo {d f : Draft} {p : Pending} {placed : Bool} {n : Nat} (hq : 0 < d.qubits)
    (h : d.execute p = .ok (f, placed)) (hd : d.grid.FillsTo n) (hle : d.column ≤ n)
    (hge : n ≤ d.column + 1) : f.grid.FillsTo (if placed then d.column + 1 else n) := by
  intro k
  constructor
  · rintro ⟨c, i, hi⟩
    obtain ⟨rfl, rfl⟩ | hi := (execute_grid h).2 hi
    · exact Nat.lt_succ_self _
    · have hk := (hd k).1 ⟨c, i, hi⟩
      split <;> omega
  · intro hk
    by_cases hold : k < n
    · obtain ⟨c, i, hi⟩ := (hd k).2 hold
      exact ⟨c, i, (execute_grid h).1 hi⟩
    · -- Beyond the old columns there is only the one that the gate was placed in.
      cases placed with
      | false => exact absurd hk hold
      | true =>
        obtain rfl : k = d.column := by
          simp only [if_true] at hk
          omega
        exact execute_fills hq h

end Draft

/-! ## Through a run -/

namespace State

/-- The number of columns in use. The current one is in use if a part of the parallel line at hand
has placed a gate. -/
def columnsInUse (s : State) : Nat :=
  s.draft.column + if 0 < s.hold ∧ s.sharedUsed = true then 1 else 0

/-- The columns in use are those that hold a cell. -/
structure Dense (s : State) : Prop where
  qubits : s.draft.Sized ∧ 0 < s.draft.qubits
  fills : s.draft.grid.FillsTo s.columnsInUse

theorem dense_initial {qubits : Nat} (h : 0 < qubits) : (initial qubits).Dense where
  qubits := ⟨Draft.sized_initial qubits, h⟩
  fills := Grid.fillsTo_empty

theorem columnsInUse_of_hold {s : State} (h : s.hold = 0) : s.columnsInUse = s.draft.column := by
  simp [columnsInUse, h]

/-- The column ends with its line, so that the columns in use are those before the gate, and its
own. -/
theorem columnsInUse_complete (s : State) (placed : Bool) :
    (s.complete placed).columnsInUse = if placed then s.draft.column + 1 else s.columnsInUse := by
  obtain ⟨d, hold, used⟩ := s
  match hold with
  | 0 => cases placed <;> rfl
  | 1 => cases placed <;> cases used <;> rfl
  | n + 2 => cases placed <;> cases used <;> simp [complete_more, columnsInUse]

theorem Dense.process {s t : State} {p : Pending} {parts rest : List Pending}
    (hs : s.Dense) (hqueue : s.Queued (p :: rest)) (hp : s.process p = .ok (t, parts)) :
    t.Dense := by
  obtain ⟨-, rfl, -⟩ | ⟨hpar, -, rfl⟩ | ⟨-, -, -, d, placed, hd, rfl⟩ := process_ok hp
  · exact hs
  · -- A parallel line is no part of another one, so the current column is still empty.
    have hnone : s.hold = 0 := Nat.eq_zero_of_not_pos fun hpos => by
      rw [(hqueue.plain p (mem_take_of_pos hpos rest)).2] at hpar
      cases hpar
    refine ⟨hs.qubits, ?_⟩
    have huse : columnsInUse ⟨s.draft, parts.length, false⟩ = s.columnsInUse := by
      simp [columnsInUse, hnone]
    rw [huse]
    exact hs.fills
  · obtain ⟨used, hused⟩ := draft_complete { s with draft := d } placed
    have hcolumn := Draft.execute_column hd
    have huse : columnsInUse { s with draft := d } = s.columnsInUse := by
      simp [columnsInUse, hcolumn]
    have hbounds : s.draft.column ≤ s.columnsInUse ∧ s.columnsInUse ≤ s.draft.column + 1 := by
      unfold columnsInUse
      split <;> omega
    have hcounted := (Draft.invariant_qubits (0 < ·)).execute hs.qubits hd
    constructor
    · rw [hused]
      exact hcounted
    · rw [columnsInUse_complete, huse, hused]
      show d.grid.FillsTo (if placed then d.column + 1 else s.columnsInUse)
      rw [hcolumn]
      exact Draft.execute_fillsTo hs.qubits.2 hd hs.fills hbounds.1 hbounds.2

end State

theorem Reaches.dense {source : Text} {s : State} {rest : List Pending}
    (h : Reaches source s rest) : s.Dense := by
  obtain ⟨qubits, lines, hfind, hsteps⟩ := h
  have hinitial := State.dense_initial (Declaration.find_ok hfind).1
  refine (hsteps.keeps (P := fun s rest => s.Queued rest ∧ s.Dense) ?_
    ⟨State.queued_of_hold rfl _, hinitial⟩).2
  exact fun ⟨hqueue, hdense⟩ hp => ⟨hqueue.process hp, hdense.process hqueue hp⟩

/-- The columns of a finished circuit are those of the draft. -/
theorem Draft.columns_finish {d : Draft} {m : Circuit} (hd : d.grid.FillsTo d.column)
    (h : d.finish = .ok m) : m.grid = d.grid ∧ m.columns = d.column := by
  obtain ⟨e, he, rfl⟩ := map_eq_ok.1 h
  obtain ⟨-, -, hgrid, hcolumn⟩ := closeSubroutine_frame he
  refine ⟨hgrid, ?_⟩
  show max e.column _ = d.column
  rw [hcolumn, hgrid]
  cases hlast : d.grid.lastColumn? with
  | none => exact Nat.max_zero _
  | some k =>
    have hk := (hd k).1 (Grid.exists_of_lastColumn? hlast)
    exact Nat.max_eq_left hk

namespace Circuit

theorem fillsTo_ofProgram {source : Text} {m : Circuit} (h : ofProgram source = .ok m) :
    m.grid.FillsTo m.columns := by
  obtain ⟨s, hs, hfinish⟩ := reaches_of_ofProgram h
  have hfills := hs.dense.fills
  rw [State.columnsInUse_of_hold hs.hold_eq_zero] at hfills
  obtain ⟨hgrid, hcolumns⟩ := Draft.columns_finish hfills hfinish
  rwa [hgrid, hcolumns]

/-- **The columns of a circuit are dense.** No cell of a state that a run gets to lies beyond the
current column, nor in it between two lines; the columns of the circuit are those before the column
that the run ends in, and these are the ones that hold cells. -/
theorem columns_dense (source : Text) :
    (∀ s rest, Reaches source s rest → ∀ c k i, s.draft.grid.get? c k = some i →
      k ≤ s.draft.column ∧ (s.hold = 0 → k < s.draft.column)) ∧
    ∀ m, ofProgram source = .ok m →
      (∃ s, Reaches source s [] ∧ s.draft.finish = .ok m ∧ m.columns = s.draft.column) ∧
      (∀ k, k < m.columns ↔ ∃ c i, m.grid.get? c k = some i) ∧
      (m.columns = 0 ↔ m.grid.toList = []) := by
  constructor
  · intro s rest hs c k i hi
    have hk := (hs.dense.fills k).1 ⟨c, i, hi⟩
    refine ⟨?_, fun hhold => State.columnsInUse_of_hold hhold ▸ hk⟩
    unfold State.columnsInUse at hk
    split at hk <;> omega
  · intro m hm
    obtain ⟨s, hs, hfinish⟩ := reaches_of_ofProgram hm
    have hfills := hs.dense.fills
    rw [State.columnsInUse_of_hold hs.hold_eq_zero] at hfills
    obtain ⟨hgrid, hcolumns⟩ := Draft.columns_finish hfills hfinish
    rw [← hgrid, ← hcolumns] at hfills
    exact ⟨⟨s, hs, hfinish, hcolumns⟩, fun k => (hfills k).symm, hfills.eq_zero_iff⟩

/-- A block without gates between two that share their columns, and a measurement. -/
theorem columns_dense_three :
    let source :=
      "qubits 2\nh q0 | x q1\n\x7bmap q0, a | display\x7d\n y a | map q1, b\nmeasure".toList
    ∃ m s, ofProgram source = .ok m ∧ Reaches source s [] ∧ m.columns = 3 ∧
      (∀ k, k < 3 ↔ ∃ c i, m.grid.get? c k = some i) ∧ s.hold = 0 ∧
      ∀ c k i, s.draft.grid.get? c k = some i → k < s.draft.column := by
  intro source
  have h : (ofProgram source).toOption.map columns = some 3 := by decide +kernel
  obtain ⟨m, hm, hcolumns⟩ := Option.map_eq_some_iff.1 h
  have hm := toOption_eq_some.1 hm
  obtain ⟨s, hs, -⟩ := reaches_of_ofProgram hm
  refine ⟨m, s, hm, hs, hcolumns, ?_, hs.hold_eq_zero, fun c k i hi => ?_⟩
  · rw [← hcolumns]
    exact ((columns_dense source).2 m hm).2.1
  · exact ((columns_dense source).1 s [] hs c k i hi).2 hs.hold_eq_zero

end Circuit

end QuantumDiagram
