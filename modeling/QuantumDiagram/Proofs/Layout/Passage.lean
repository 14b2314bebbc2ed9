import QuantumDiagram.Proofs.Layout.Cells

/-!
# The pieces of a line

A wire passes the cells of a row, and a connector those of a column. `Passes` says what this comes
to: there is one piece for each cell, and it ends where the next one begins or at an element, behind
which the next one begins. The pieces between what is met in bands that lie side by side pass these
bands (`passes_piecesBetween`), and keep clear of what is in other ones (`clear_piecesBetween`).
-/

namespace QuantumDiagram

/-- `Passes piece x pieces cells z`: the pieces lead from `x` forward to `z` through the cells, one
of them in each. In a cell that is free, the piece ends where the next one begins; in one with an
element, given by the band it takes up, the piece ends where the element begins, and the next one
begins where the element ends. -/
inductive Passes (piece : Int → Int → Segment) :
    Int → List Segment → List (Option Band) → Int → Prop
  | done {x : Int} : Passes piece x [] [] x
  | free {x y z : Int} {pieces : List Segment} {cells : List (Option Band)} (le : x ≤ y)
      (rest : Passes piece y pieces cells z) :
      Passes piece x (piece x y :: pieces) (none :: cells) z
  | element {x z : Int} {b : Band} {pieces : List Segment} {cells : List (Option Band)}
      (le : x ≤ b.start) (positive : b.start ≤ b.stop) (rest : Passes piece b.stop pieces cells z) :
      Passes piece x (piece x b.start :: pieces) (some b :: cells) z

namespace Passes

variable {piece : Int → Int → Segment} {x z : Int} {pieces : List Segment}
  {cells : List (Option Band)}

theorem length_eq (h : Passes piece x pieces cells z) : pieces.length = cells.length := by
  induction h with
  | done => rfl
  | free _ _ ih => exact congrArg (· + 1) ih
  | element _ _ _ ih => exact congrArg (· + 1) ih

theorem exists_of_mem (h : Passes piece x pieces cells z) {p : Segment} (hp : p ∈ pieces) :
    ∃ y₁ y₂, y₁ ≤ y₂ ∧ p = piece y₁ y₂ := by
  induction h with
  | done => cases hp
  | free le _ ih =>
    rcases List.mem_cons.1 hp with rfl | hp
    · exact ⟨_, _, le, rfl⟩
    · exact ih hp
  | element le _ _ ih =>
    rcases List.mem_cons.1 hp with rfl | hp
    · exact ⟨_, _, le, rfl⟩
    · exact ih hp

theorem head?_eq (h : Passes piece x pieces cells z) (hcells : cells ≠ []) :
    ∃ y, pieces.head? = some (piece x y) := by
  cases h with
  | done => exact absurd rfl hcells
  | free _ _ => exact ⟨_, rfl⟩
  | element _ _ _ => exact ⟨_, rfl⟩

/-- The last piece ends where the element in the last cell begins. -/
theorem getLast?_eq {b : Band} (h : Passes piece x pieces cells z)
    (hlast : cells.getLast? = some (some b)) :
    ∃ y, pieces.getLast? = some (piece y b.start) := by
  induction h with
  | done => cases hlast
  | free _ rest ih =>
    cases rest with
    | done => cases hlast
    | free _ _ => exact ih hlast
    | element _ _ _ => exact ih hlast
  | element _ _ rest ih =>
    cases rest with
    | done =>
      cases hlast
      exact ⟨_, rfl⟩
    | free _ _ => exact ih hlast
    | element _ _ _ => exact ih hlast

end Passes

namespace Scene

/-! ## Pieces between bands -/

/-- What a line meets in a cell: the element, given by the band it takes up, else the end of the
cell. -/
def met (cell : Band × Option Band) : Band := cell.2.getD cell.1.last

/-- **The pieces between what is met in the cells pass the cells**, if these lie side by side and
their elements are inside. -/
theorem passes_piecesBetween (piece : Int → Int → Segment) {cells : List (Band × Option Band)}
    {start stop : Int} (hlaid : Laid start (cells.map Prod.fst) stop)
    (hinside : ∀ cell ∈ cells, ∀ b ∈ cell.2, b.Inside cell.1) {first last : Band}
    (hfirst : first.stop ≤ start) (hlast : (first :: cells.map met).getLast? = some last) :
    Passes piece first.stop (piecesBetween piece (first :: cells.map met)) (cells.map Prod.snd)
      last.stop := by
  induction cells generalizing first start with
  | nil =>
    cases hlast
    exact .done
  | cons cell cells ih =>
    obtain ⟨band, element?⟩ := cell
    obtain ⟨rfl, hlength, hrest⟩ := hlaid
    have hbehind := fun cell hcell => hinside cell (List.mem_cons_of_mem _ hcell)
    have hstart : first.stop ≤ band.stop := Int.le_trans hfirst (Band.start_le_stop hlength)
    rw [List.map_cons, List.getLast?_cons_cons] at hlast
    rw [List.map_cons, piecesBetween_cons_cons, List.map_cons]
    cases element? with
    | none =>
      have hend : band.last.stop ≤ band.stop := Int.le_of_eq band.stop_last
      have hpasses := ih hrest hbehind hend hlast
      rw [Band.stop_last] at hpasses
      exact .free hstart hpasses
    | some b =>
      have hb : b.Inside band := hinside _ List.mem_cons_self b rfl
      exact .element (Int.le_trans hfirst hb.start) (Band.start_le_stop hb.length)
        (ih hrest hbehind hb.stop hlast)

/-- Through a last cell that is free, they lead to its end. -/
theorem passes_to_end (piece : Int → Int → Segment) {cells : List (Band × Option Band)}
    {start stop : Int} (hlaid : Laid start (cells.map Prod.fst) stop)
    (hinside : ∀ cell ∈ cells, ∀ b ∈ cell.2, b.Inside cell.1) {first last : Band}
    (hfirst : first.stop ≤ start) (hlast : cells.getLast? = some (last, none)) :
    Passes piece first.stop (piecesBetween piece (first :: cells.map met)) (cells.map Prod.snd)
      stop := by
  obtain ⟨before, rfl⟩ := List.getLast?_eq_some_iff.1 hlast
  have hstop : last.stop = stop := by
    rw [List.map_append] at hlaid
    exact hlaid.stop_eq
  have hmet : (first :: (before ++ [(last, none)]).map met).getLast? = some last.last := by
    rw [List.map_append, ← List.cons_append]
    exact List.getLast?_concat
  have hpasses := passes_piecesBetween piece hlaid hinside hfirst hmet
  rwa [Band.stop_last, hstop] at hpasses

theorem exists_of_mem_piecesBetween {piece : Int → Int → Segment} {met : List Band} {p : Segment}
    (hp : p ∈ piecesBetween piece met) :
    ∃ before b c behind, met = before ++ b :: c :: behind ∧ p = piece b.stop c.start := by
  induction met with
  | nil => cases hp
  | cons b met ih =>
    cases met with
    | nil => cases hp
    | cons c met =>
      rw [piecesBetween_cons_cons] at hp
      rcases List.mem_cons.1 hp with rfl | hp
      · exact ⟨[], b, c, met, rfl, rfl⟩
      · obtain ⟨before, b', c', behind, hmet, hp⟩ := ih hp
        exact ⟨b :: before, b', c', behind, congrArg (b :: ·) hmet, hp⟩

/-- **A piece keeps clear of what is met**, also before and behind the line, if it follows one
another: it begins behind each of these bands, or ends before it. -/
theorem clear_piecesBetween {piece : Int → Int → Segment} {before met behind : List Band}
    (hfollow : (before ++ met ++ behind).Pairwise fun b c => b.stop ≤ c.start)
    (hpositive : ∀ b ∈ before ++ met ++ behind, b.start ≤ b.stop) {p : Segment}
    (hp : p ∈ piecesBetween piece met) :
    ∃ y₁ y₂, p = piece y₁ y₂ ∧ ∀ b ∈ before ++ met ++ behind, b.stop ≤ y₁ ∨ y₂ ≤ b.start := by
  obtain ⟨above, b, c, below, rfl, rfl⟩ := exists_of_mem_piecesBetween hp
  have hsplit : before ++ (above ++ b :: c :: below) ++ behind =
      (before ++ above) ++ b :: c :: (below ++ behind) := by simp
  rw [hsplit] at hfollow hpositive ⊢
  obtain ⟨-, hrest, hbefore⟩ := List.pairwise_append.1 hfollow
  obtain ⟨-, hrest⟩ := List.pairwise_cons.1 hrest
  have hb := hpositive b (by simp)
  have hc := hpositive c (by simp)
  refine ⟨_, _, rfl, fun d hd => ?_⟩
  rcases List.mem_append.1 hd with hd | hd
  · exact .inl (Int.le_trans (hbefore d hd b List.mem_cons_self) hb)
  rcases List.mem_cons.1 hd with rfl | hd
  · exact .inl (Int.le_refl _)
  rcases List.mem_cons.1 hd with rfl | hd
  · exact .inr (Int.le_refl _)
  · exact .inr (Int.le_trans hc (List.rel_of_pairwise_cons hrest hd))

/-! ## The segments of a layout -/

theorem kind_of_mem_wires {s : Scene} {p : Segment} (h : p ∈ s.wires) : p.kind = .wire := by
  obtain ⟨row, -, hp⟩ := List.mem_flatMap.1 h
  rw [wire] at hp
  obtain ⟨_, b, c, _, -, rfl⟩ := exists_of_mem_piecesBetween hp
  rfl

theorem kind_of_mem_connector {s : Scene} {column : Column} {row : Row} {below : List Row}
    {p : Segment} (h : p ∈ s.connector column row below) : p.kind = .connector := by
  unfold connector at h
  split at h
  · cases h
  split at h
  · cases h
  split at h
  · cases h
  · obtain ⟨_, b, c, _, -, rfl⟩ := exists_of_mem_piecesBetween h
    rfl

theorem kind_of_mem_connectors {s : Scene} {p : Segment} (h : p ∈ s.connectors) :
    p.kind = .connector := by
  obtain ⟨column, -, hp⟩ := List.mem_flatMap.1 h
  generalize s.rows = rows at hp
  induction rows with
  | nil => cases hp
  | cons row below ih =>
    rw [connectorsIn_cons] at hp
    rcases List.mem_append.1 hp with hp | hp
    · exact kind_of_mem_connector hp
    · exact ih hp

end Scene

namespace Layout

section Segments

variable {m : Circuit} {surface : Size} {f : TextMetrics} {s : LayoutSettings}
  (d : m.Division surface f s)

theorem segmentsOf_wire : d.layout.segmentsOf .wire = d.scene.wires := by
  show (d.scene.wires ++ d.scene.connectors).filter _ = _
  rw [List.filter_append, List.filter_eq_self.2, List.filter_eq_nil_iff.2, List.append_nil]
  · intro p hp
    simp [Scene.kind_of_mem_connectors hp]
  · intro p hp
    simp [Scene.kind_of_mem_wires hp]

theorem segmentsOf_connector : d.layout.segmentsOf .connector = d.scene.connectors := by
  show (d.scene.wires ++ d.scene.connectors).filter _ = _
  rw [List.filter_append, List.filter_eq_nil_iff.2, List.filter_eq_self.2, List.nil_append]
  · intro p hp
    simp [Scene.kind_of_mem_connectors hp]
  · intro p hp
    simp [Scene.kind_of_mem_wires hp]

end Segments

end Layout

end QuantumDiagram
