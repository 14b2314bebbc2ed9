import QuantumDiagram.Proofs.Circuit.Labels
import QuantumDiagram.Proofs.Layout.Correspondence
import QuantumDiagram.Proofs.Layout.Placement
import QuantumDiagram.Proofs.Svg.Pieces

/-!
# What is in a drawing

The pieces of a drawing are counted: its groups, its identifiers, and the texts and lines outside of
all groups (`Svg.Lists`). A program's drawing has one group for each cell of the circuit and one for
each bracket, one text for each visible row, and one line or two for each segment, and no
identifier is given twice (`Circuit.inventory_layout`).
-/

namespace QuantumDiagram

namespace Svg

/-! ## Reading pieces -/

namespace Piece

def attributes : Piece → List Attribute
  | .opening _ attributes => attributes
  | .empty _ attributes => attributes
  | .text attributes _ => attributes
  | _ => []

/-- The identifiers that the piece gives. -/
def ids (p : Piece) : List Text := (p.attributes.filter (·.1 = "id".toList)).map Prod.snd

def opensGroup : Piece → Bool
  | .opening name _ => name = "g".toList
  | _ => false

def closesGroup : Piece → Bool
  | .closing name => name = "g".toList
  | _ => false

def isText : Piece → Bool
  | .text .. => true
  | _ => false

def isLine : Piece → Bool
  | .empty name _ => name = "line".toList
  | _ => false

end Piece

/-- The pieces that are outside of all groups, where so many groups are open before them. -/
def outsideGroups : Nat → List Piece → List Piece
  | _, [] => []
  | depth, p :: ps =>
    if p.opensGroup then outsideGroups (depth + 1) ps
    else if p.closesGroup then outsideGroups (depth - 1) ps
    else if depth = 0 then p :: outsideGroups depth ps
    else outsideGroups depth ps

/-! ## Counting pieces -/

/-- The pieces have these groups and identifiers, and outside of all groups these texts and lines.
-/
structure Lists (ps groups : List Piece) (ids : List Text) (texts lines : List Piece) : Prop where
  groups : ps.filter Piece.opensGroup = groups
  ids : ps.flatMap Piece.ids = ids
  /-- Every group is closed, so that what comes behind the pieces is outside too. -/
  outside : ∃ out, (∀ rest, outsideGroups 0 (ps ++ rest) = out ++ outsideGroups 0 rest) ∧
    out.filter Piece.isText = texts ∧ out.filter Piece.isLine = lines

section Lists

variable {ps qs groups groups' texts texts' lines lines' : List Piece} {ids ids' : List Text}

theorem Lists.nil : Lists [] [] [] [] [] := ⟨rfl, rfl, [], fun _ => rfl, rfl, rfl⟩

theorem Lists.append (h : Lists ps groups ids texts lines)
    (h' : Lists qs groups' ids' texts' lines') :
    Lists (ps ++ qs) (groups ++ groups') (ids ++ ids') (texts ++ texts') (lines ++ lines') := by
  obtain ⟨rfl, rfl, out, hout, rfl, rfl⟩ := h
  obtain ⟨rfl, rfl, out', hout', rfl, rfl⟩ := h'
  refine ⟨List.filter_append .., List.flatMap_append .., out ++ out', fun rest => ?_,
    List.filter_append .., List.filter_append ..⟩
  rw [List.append_assoc, hout, hout', List.append_assoc]

theorem Lists.flatMap {α : Type} {f groups texts lines : α → List Piece} {ids : α → List Text}
    {l : List α} (h : ∀ a ∈ l, Lists (f a) (groups a) (ids a) (texts a) (lines a)) :
    Lists (l.flatMap f) (l.flatMap groups) (l.flatMap ids) (l.flatMap texts) (l.flatMap lines) := by
  induction l with
  | nil => exact .nil
  | cons a l ih =>
    obtain ⟨ha, hl⟩ := List.forall_mem_cons.1 h
    exact ha.append (ih hl)

end Lists

theorem flatMap_none {α β : Type} (l : List α) : l.flatMap (fun _ => ([] : List β)) = [] :=
  List.flatMap_eq_nil_iff.2 fun _ _ => rfl

/-! ## The parts of a drawing -/

/-- The identifier of a cell, without what all identifiers begin with. -/
def siteId (site : Site) : Text := site.channel.text ++ '-' :: Decimal.natural site.column

/-- The tag that opens the group of a cell. -/
def cellGroup (s : Settings) (cell : Site × Instruction) : Piece :=
  .opening "g" ([("id".toList, s.className (siteId cell.1)),
    ("class", Text.joinWith " " [s.className "gate", s.className cell.2.name]),
    ("data-gate", escape cell.2.name)] ++
      cell.2.angle.toList.map fun a => ("data-angle".toList, escape (Decimal.floating a)))

/-- The tag that opens the group of a bracket. -/
def bracketGroup (s : Settings) (b : Bracket) : Piece :=
  .opening "g" [("class", s.className "subroutine"), ("data-name", escape b.name)]

/-- The lines of a segment: one in its place, or two beside it. -/
def segmentLines (s : Settings) (gap : Int) (g : Segment) : List Piece :=
  let line (dx dy : Int) : Piece := linePiece s ⟨g.start.x + dx, g.start.y + dy⟩
    ⟨g.stop.x + dx, g.stop.y + dy⟩ (lineClass g.kind)
  match g.style, g.kind with
  | .single, _ => [line 0 0]
  | .double, .wire => [line 0 (-gap), line 0 gap]
  | .double, .connector => [line (-gap) 0, line gap 0]

section Parts

variable {s : Settings}

theorem lists_elementMarks {l : Layout} {cell : Site × Instruction} {e : Element}
    (h : l.Shows cell e) : Lists ((elementMarks s e).map (markPiece s)) [cellGroup s cell]
      [s.className (siteId cell.1)] [] [] := by
  obtain ⟨site, i⟩ := cell
  obtain ⟨hchannel, hcolumn, hgate, hclassical, hangle, -, -⟩ := h
  have hid : elementId e = siteId site := by rw [elementId, hchannel, hcolumn, siteId]
  have hname : elementName e = i.name := by
    rw [elementName, hgate, hclassical, Instruction.name]
  unfold elementMarks cellGroup
  rw [hid, hname, hangle]
  cases i.angle <;> cases e.glyph <;> exact ⟨rfl, rfl, [], fun _ => rfl, rfl, rfl⟩

theorem lists_bracketMarks (b : Bracket) : Lists ((bracketMarks s b).map (markPiece s))
    [bracketGroup s b] [] [] [] := by
  have hclass : Text.joinWith " " [s.className "subroutine"] = s.className "subroutine" := by
    simp [Text.joinWith]
  unfold bracketGroup
  rw [← hclass]
  exact ⟨rfl, rfl, [], fun _ => rfl, rfl, rfl⟩

theorem lists_labelPiece (content : Text) (middle : Point) :
    Lists [labelPiece s content middle] [] [] [labelPiece s content middle] [] :=
  ⟨rfl, rfl, [_], fun _ => rfl, rfl, rfl⟩

theorem lists_linePiece (start stop : Point) (kind : Text) :
    Lists [linePiece s start stop kind] [] [] [] [linePiece s start stop kind] :=
  ⟨rfl, rfl, [_], fun _ => rfl, rfl, rfl⟩

theorem lists_headPieces (l : Layout) (s : Settings) (stylesheet : Stylesheet) :
    Lists ((l.draw s stylesheet).headPieces s l.bounds) []
      (if l.brackets.isEmpty then [] else [s.className "arrow"]) [] [] := by
  have hdeclaration : Lists (if s.standalone then [.declaration] else []) [] [] [] [] := by
    split
    · exact ⟨rfl, rfl, [.declaration], fun _ => rfl, rfl, rfl⟩
    · exact .nil
  have hroot : Lists [Document.rootPiece s l.bounds] [] [] [] [] :=
    ⟨rfl, rfl, [_], fun _ => rfl, rfl, rfl⟩
  have hstyle (css : Text) : Lists (blockPieces "style" [[.rules css]]) [] [] [] [] :=
    ⟨rfl, rfl, [_, _, _], fun _ => rfl, rfl, rfl⟩
  have hdefs : Lists (blockPieces "defs" (List.replicate (if l.brackets.isEmpty then 0 else 1)
      (arrowHeadPieces s))) [] (if l.brackets.isEmpty then [] else [s.className "arrow"])
      [] [] := by
    split
    · exact .nil
    · exact ⟨rfl, rfl, [_, _, _, _, _], fun _ => rfl, rfl, rfl⟩
  exact hdeclaration.append (hroot.append ((hstyle _).append hdefs))

theorem map_strokes (gap : Int) (g : Segment) :
    (g.strokes gap).map (fun line => linePiece s line.start line.stop (lineClass line.kind)) =
      segmentLines s gap g := by
  obtain ⟨kind, style, start, stop⟩ := g
  cases style <;> cases kind <;> simp [Segment.strokes, Segment.shifted, segmentLines]

theorem lists_lines (s : Settings) (lines : List Segment) :
    Lists (lines.map fun line => linePiece s line.start line.stop (lineClass line.kind)) [] [] []
      (lines.map fun line => linePiece s line.start line.stop (lineClass line.kind)) := by
  have h := Lists.flatMap (l := lines) fun line _ =>
    lists_linePiece (s := s) line.start line.stop (lineClass line.kind)
  simpa only [flatMap_none, ← List.map_eq_flatMap] using h

theorem lists_labels (s : Settings) (labels : List Label) :
    Lists ((labels.map fun label => Mark.label label.text label.bounds.center).map (markPiece s))
      [] [] (labels.map fun label => labelPiece s label.text label.bounds.center) [] := by
  have h := Lists.flatMap (l := labels) fun label _ =>
    lists_labelPiece (s := s) label.text label.bounds.center
  rw [List.map_map]
  simp only [flatMap_none, ← List.map_eq_flatMap] at h
  exact h

theorem lists_brackets (s : Settings) (brackets : List Bracket) :
    Lists ((brackets.flatMap (bracketMarks s)).map (markPiece s)) (brackets.map (bracketGroup s))
      [] [] [] := by
  have h := Lists.flatMap (l := brackets) fun b _ => lists_bracketMarks (s := s) b
  rw [List.map_flatMap]
  simpa only [flatMap_none, ← List.map_eq_flatMap] using h

theorem lists_elements {l : Layout} {cells : List (Site × Instruction)} {elements : List Element}
    (h : List.Forall₂ l.Shows cells elements) (s : Settings) :
    Lists ((elements.flatMap (elementMarks s)).map (markPiece s)) (cells.map (cellGroup s))
      (cells.map fun cell => s.className (siteId cell.1)) [] [] := by
  induction h with
  | nil => exact .nil
  | cons hshows _ ih =>
    rw [List.flatMap_cons, List.map_append]
    exact (lists_elementMarks hshows).append ih

/-- What is listed of the pieces of a drawing. -/
theorem lists_pieces {l : Layout} {cells : List (Site × Instruction)}
    (h : List.Forall₂ l.Shows cells l.elements) (s : Settings) (stylesheet : Stylesheet) :
    Lists ((l.draw s stylesheet).pieces s l.bounds)
      (cells.map (cellGroup s) ++ l.brackets.map (bracketGroup s))
      ((if l.brackets.isEmpty then [] else [s.className "arrow"]) ++
        cells.map fun cell => s.className (siteId cell.1))
      (l.labels.map fun label => labelPiece s label.text label.bounds.center)
      (l.segments.flatMap (segmentLines s l.doubleLineGap)) := by
  have hbackground : Lists ((if s.background then [Mark.rect l.bounds "background"] else []).map
      (markPiece s)) [] [] [] [] := by
    split
    · exact ⟨rfl, rfl, [_], fun _ => rfl, rfl, rfl⟩
    · exact .nil
  have hlines := lists_lines s (l.segments.flatMap (Segment.strokes l.doubleLineGap))
  have hclosing : Lists [.closing "svg"] [] [] [] [] := ⟨rfl, rfl, [_], fun _ => rfl, rfl, rfl⟩
  have hmarks := ((hbackground.append (lists_labels s l.labels)).append
    (lists_elements h s)).append (lists_brackets s l.brackets)
  have hpieces := (((lists_headPieces l s stylesheet).append hlines).append hmarks).append hclosing
  have hstrokes : (l.segments.flatMap (Segment.strokes l.doubleLineGap)).map
      (fun line => linePiece s line.start line.stop (lineClass line.kind)) =
        l.segments.flatMap (segmentLines s l.doubleLineGap) := by
    rw [List.map_flatMap]
    exact List.flatMap_congr fun g _ => map_strokes l.doubleLineGap g
  rw [← hstrokes]
  simp only [← List.map_append, List.nil_append, List.append_nil] at hpieces
  exact hpieces

end Parts

/-! ## Identifiers -/

theorem siteId_inj {site site' : Site} : siteId site = siteId site' ↔ site = site' := by
  have hdigits (n : Nat) : '-' ∉ Decimal.natural n := fun h =>
    absurd (List.all_eq_true.1 (Decimal.all_isDigit_natural n) _ h) (by decide)
  have hchannel (c : Channel) : '-' ∉ c.text := by
    cases c <;> simp [Channel.text, hdigits]
  obtain ⟨c, k⟩ := site
  obtain ⟨c', k'⟩ := site'
  rw [siteId, siteId, List.append_cons_inj_of_notMem (hchannel c) (hdigits k), Channel.text_inj]
  simp only [true_and, Site.mk.injEq]
  exact and_congr_right fun _ => ⟨Decimal.natural_injective, congrArg _⟩

theorem siteId_ne_arrow (site : Site) : siteId site ≠ "arrow" := by
  obtain ⟨c, k⟩ := site
  cases c <;> simp [siteId, Channel.text]

theorem className_inj {s : Settings} {t u : Text} : s.className t = s.className u ↔ t = u :=
  List.append_right_inj _

/-- No two cells have the same identifier, and none has that of the head of arrows. -/
theorem nodup_ids {cells : List (Site × Instruction)}
    (h : cells.Pairwise fun x y => compare x.1 y.1 = .lt) (s : Settings) (arrows : Bool) :
    ((if arrows then [] else [s.className "arrow"]) ++
      cells.map fun cell => s.className (siteId cell.1)).Nodup := by
  have hcells : (cells.map fun cell => s.className (siteId cell.1)).Nodup := by
    refine List.pairwise_map.2 (h.imp fun hlt heq => ?_)
    rw [className_inj, siteId_inj] at heq
    rw [heq] at hlt
    simp at hlt
  split
  · exact hcells
  · refine List.nodup_cons.2 ⟨fun hmem => ?_, hcells⟩
    obtain ⟨cell, -, heq⟩ := List.mem_map.1 hmem
    exact siteId_ne_arrow cell.1 (className_inj.1 heq)

/-! ## Inventories -/

/-- The drawing has everything that the circuit and its layout have, and each once. -/
structure Inventory (m : Circuit) (l : Layout) (s : Settings) (pieces : List Piece) : Prop where
  /-- There is one group for each cell of the grid, and one for each bracket. -/
  groups : pieces.filter Piece.opensGroup =
    m.grid.toList.map (cellGroup s) ++ l.brackets.map (bracketGroup s)
  ids : pieces.flatMap Piece.ids = (if l.brackets.isEmpty then [] else [s.className "arrow"]) ++
    m.grid.toList.map fun cell => s.className (siteId cell.1)
  nodup : (pieces.flatMap Piece.ids).Nodup
  /-- Outside of the groups there is one text for each label, and one label for each visible row. -/
  texts : (outsideGroups 0 pieces).filter Piece.isText =
    l.labels.map fun label => labelPiece s label.text label.bounds.center
  rows : l.labels.map (fun label => (label.channel, label.text)) =
    m.visibleRows.map fun c => (c, m.label c)
  /-- Outside of the groups there are just the lines of the segments. -/
  lines : (outsideGroups 0 pieces).filter Piece.isLine =
    l.segments.flatMap (segmentLines s l.doubleLineGap)
  /-- A wire is horizontal and a connector vertical, so that the two lines of a double one are on
  both sides of it. -/
  straight : ∀ g ∈ l.segments, match g.kind with
    | .wire => g.start.y = g.stop.y
    | .connector => g.start.x = g.stop.x

end Svg

namespace Scene

theorem straight_of_mem_wires {s : Scene} {p : Segment} (h : p ∈ s.wires) :
    p.start.y = p.stop.y := by
  obtain ⟨row, -, hp⟩ := List.mem_flatMap.1 h
  rw [wire] at hp
  obtain ⟨_, b, c, _, -, rfl⟩ := exists_of_mem_piecesBetween hp
  rfl

theorem straight_of_mem_connectors {s : Scene} {p : Segment} (h : p ∈ s.connectors) :
    p.start.x = p.stop.x := by
  obtain ⟨column, -, hp⟩ := List.mem_flatMap.1 h
  rw [connectorsIn_eq] at hp
  obtain ⟨chain, hchain, hp⟩ := List.mem_flatMap.1 hp
  obtain ⟨above, row, below, -, -, hconnector⟩ := mem_chainsIn.1 hchain
  rw [← hconnector] at hp
  obtain ⟨style, through, -, hp⟩ := mem_connector hp
  obtain ⟨_, b, c, _, -, rfl⟩ := exists_of_mem_piecesBetween hp
  rfl

end Scene

namespace Circuit

/-- **The drawing of a program is complete and has nothing twice.** -/
theorem inventory_layout {source : Text} {m : Circuit} (h : ofProgram source = .ok m)
    (surface : Size) (f : TextMetrics) (s : LayoutSettings) (svg : Svg.Settings)
    (stylesheet : Stylesheet) :
    let l := m.layout surface f s
    let pieces := (l.draw svg stylesheet).pieces svg l.bounds
    Svg.Spaced pieces (l.svg svg stylesheet) ∧ Svg.Inventory m l svg pieces := by
  intro l pieces
  let d := Division.exact m surface f s
  have hshows : List.Forall₂ l.Shows m.grid.toList l.elements := shows_elements h d
  obtain ⟨hgroups, hids, out, hout, htexts, hlines⟩ := Svg.lists_pieces hshows svg stylesheet
  have houtside : Svg.outsideGroups 0 pieces = out := by
    have := hout []
    rwa [List.append_nil, Svg.outsideGroups, List.append_nil] at this
  refine ⟨Svg.Document.spaced_text _ svg l.bounds, hgroups, hids, ?nodup, ?texts, ?rows, ?lines,
    ?straight⟩
  case nodup =>
    rw [hids]
    exact Svg.nodup_ids Std.ExtTreeMap.ordered_keys_toList svg _
  case texts => rw [houtside, htexts]
  case rows =>
    show (d.scene.rows.map d.scene.label).map _ = _
    rw [← Scene.map_channel_rows d, List.map_map, List.map_map]
    rfl
  case lines => rw [houtside, hlines]
  case straight =>
    intro g hg
    rcases List.mem_append.1 hg with hg | hg
    · rw [Scene.kind_of_mem_wires hg]
      exact Scene.straight_of_mem_wires hg
    · rw [Scene.kind_of_mem_connectors hg]
      exact Scene.straight_of_mem_connectors hg

/-- Ten segments, four of them double, with a subroutine and a bit that is shown. -/
theorem inventory_layout_pair :
    let source := "qubits 2\n.pair\n cnot q0, q1\nmeasure q1".toList
    ∃ m, ofProgram source = .ok m ∧
      let l := m.layout ⟨100, 140⟩ (FontMetrics.toTextMetrics ⟨10, 20⟩) {}
      let pieces := (l.draw {} .default).pieces {} l.bounds
      pieces.flatMap Svg.Piece.ids =
          ["qc-arrow".toList, "qc-q0-0", "qc-q1-0", "qc-q1-1", "qc-b1-1"] ∧
        l.segments.length = 10 ∧
        ((Svg.outsideGroups 0 pieces).filter Svg.Piece.isLine).length = 14 ∧
        Svg.Spaced pieces (l.svg {} .default) ∧ Svg.Inventory m l {} pieces := by
  intro source
  have h : (ofProgram source).toOption.map (fun m =>
      let l := m.layout ⟨100, 140⟩ (FontMetrics.toTextMetrics ⟨10, 20⟩) {}
      let pieces := (l.draw {} .default).pieces {} l.bounds
      (pieces.flatMap Svg.Piece.ids, l.segments.length,
        ((Svg.outsideGroups 0 pieces).filter Svg.Piece.isLine).length)) =
      some (["qc-arrow".toList, "qc-q0-0", "qc-q1-0", "qc-q1-1", "qc-b1-1"], 10, 14) := by
    decide +kernel
  obtain ⟨m, hm, hcounts⟩ := Option.map_eq_some_iff.1 h
  simp only [Prod.mk.injEq] at hcounts
  obtain ⟨hids, hsegments, hlines⟩ := hcounts
  have hm := toOption_eq_some.1 hm
  obtain ⟨hspaced, hinventory⟩ :=
    inventory_layout hm ⟨100, 140⟩ (FontMetrics.toTextMetrics ⟨10, 20⟩) {} {} .default
  exact ⟨m, hm, hids, hsegments, hlines, hspaced, hinventory⟩

end Circuit

end QuantumDiagram
