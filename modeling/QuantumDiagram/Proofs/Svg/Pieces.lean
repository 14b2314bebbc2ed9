import QuantumDiagram.Svg.Drawing

/-!
# The pieces of a document

A document is a sequence of pieces: tags, whole `text` elements and style rules. Which pieces they
are depends on what is drawn and not on how the document is set (`Svg.Document.pieces`); its text
has them in their order, with nothing but spaces and line feeds between them
(`Svg.Document.spaced_text`). So the two ways to set a document differ only there
(`Layout.spaced_svg`).
-/

namespace QuantumDiagram

namespace Svg

/-! ## Pieces -/

/-- A part of a document that is never set apart. The attributes have the values that are written.
-/
inductive Piece where
  /-- The XML declaration. -/
  | declaration
  | opening (name : Text) (attributes : List Attribute)
  | empty (name : Text) (attributes : List Attribute)
  | closing (name : Text)
  /-- A `text` element, with the characters that it shows. -/
  | text (attributes : List Attribute) (content : Text)
  /-- What a `style` element says. -/
  | rules (css : Text)

def Piece.written : Piece → Text
  | .declaration => "<?xml version=\"1.0\" encoding=\"UTF-8\"?>"
  | .opening name attributes => openTag name attributes
  | .empty name attributes => emptyTag name attributes
  | .closing name => closeTag name
  | .text attributes content =>
    Text.join [openTag "text" attributes, escape content, closeTag "text"]
  | .rules css => css

/-- The pieces of a block between two tags, if it is not empty. -/
def blockPieces (name : Text) (contents : List (List Piece)) : List Piece :=
  if contents.isEmpty then []
  else .opening name [] :: (contents.flatten ++ [.closing name])

def arrowHeadPieces (s : Settings) : List Piece :=
  [.opening "marker" [("id", s.className "arrow"), ("viewBox", "0 0 10 10"), ("refX", "8"),
      ("refY", "5"), ("markerWidth", "6"), ("markerHeight", "6"),
      ("orient", "auto-start-reverse")],
    .empty "path" [("d", "M0,0 L10,5 L0,10 Z"), ("fill", "context-stroke")],
    .closing "marker"]

def linePiece (s : Settings) (start stop : Point) (kind : Text) : Piece :=
  .empty "line" (("class", s.className kind) :: endsOf start stop)

def labelPiece (s : Settings) (content : Text) (middle : Point) : Piece :=
  .text [("class", s.className "text"), ("x", Decimal.integer middle.x),
    ("y", Decimal.integer middle.y), ("text-anchor", "middle"),
    ("dominant-baseline", "middle")] content

def markPiece (s : Settings) : Mark → Piece
  | .rect b kind =>
    .empty "rect" [("class", s.className kind), ("x", Decimal.integer b.x),
      ("y", Decimal.integer b.y), ("width", Decimal.integer b.width),
      ("height", Decimal.integer b.height)]
  | .circle center radius kind =>
    .empty "circle" [("class", s.className kind), ("cx", Decimal.integer center.x),
      ("cy", Decimal.integer center.y), ("r", Decimal.integer radius)]
  | .line start stop kind => linePiece s start stop kind
  | .path commands kind => .empty "path" [("class", s.className kind), ("d", commands)]
  | .label content middle => labelPiece s content middle
  | .arrow start stop =>
    let head := Text.join ["url(#", s.className "arrow", ")"]
    .empty "line" (("class".toList, s.className "bracket") :: (endsOf start stop ++
      [("marker-start".toList, head), ("marker-end", head)]))
  | .openGroup id classes attributes =>
    .opening "g" ((id.map fun id => ("id".toList, s.className id)).toList ++
      (if classes.isEmpty then [] else [("class".toList, Text.joinWith " " classes)]) ++
      attributes.map fun (name, value) => (name, escape value))
  | .closeGroup => .closing "g"

namespace Document

def rootPiece (s : Settings) (area : Box) : Piece :=
  let width := Decimal.integer (area.width + 2 * s.padding)
  let height := Decimal.integer (area.height + 2 * s.padding)
  .opening "svg" [("xmlns", "http://www.w3.org/2000/svg"),
    ("viewBox", Text.joinWith " " [Decimal.integer (area.x - s.padding),
      Decimal.integer (area.y - s.padding), width, height]),
    ("width", width), ("height", height)]

/-- What comes before the first thing that is drawn. -/
def headPieces (d : Document) (s : Settings) (area : Box) : List Piece :=
  (if s.standalone then [.declaration] else []) ++
    rootPiece s area ::
      (blockPieces "style" (d.styles.map fun style => [.rules (style.text (s.className []))]) ++
        blockPieces "defs" (List.replicate d.arrowHeads (arrowHeadPieces s)))

def pieces (d : Document) (s : Settings) (area : Box) : List Piece :=
  d.headPieces s area ++
    d.lines.map (fun l => linePiece s l.start l.stop (lineClass l.kind)) ++
    d.marks.map (markPiece s) ++ [.closing "svg"]

end Document

/-! ## Gaps -/

/-- What is set between pieces. -/
def IsGap (t : Text) : Prop := ∀ c ∈ t, c = ' ' ∨ c = '\n'

/-- The text has the pieces in this order, with gaps before, between and behind them. -/
inductive Spaced : List Piece → Text → Prop
  | nil {gap : Text} : IsGap gap → Spaced [] gap
  | cons {gap t : Text} {p : Piece} {ps : List Piece} : IsGap gap → Spaced ps t →
      Spaced (p :: ps) (gap ++ p.written ++ t)

/-- The text without its spaces and line feeds. -/
def withoutGaps (t : Text) : Text := t.filter fun c => c ≠ ' ' && c ≠ '\n'

section Gaps

variable {s t gap : Text} {p : Piece} {ps qs : List Piece}

theorem IsGap.nil : IsGap [] := fun _ h => nomatch h

theorem IsGap.append (hs : IsGap s) (ht : IsGap t) : IsGap (s ++ t) :=
  List.forall_mem_append.2 ⟨hs, ht⟩

theorem IsGap.repeated (n : Nat) : IsGap (Text.repeated n ' ') :=
  fun _ hc => .inl (List.eq_of_mem_replicate hc)

theorem withoutGaps_append (s t : Text) : withoutGaps (s ++ t) = withoutGaps s ++ withoutGaps t :=
  List.filter_append ..

theorem IsGap.withoutGaps_eq (h : IsGap gap) : withoutGaps gap = [] := by
  refine List.filter_eq_nil_iff.2 fun c hc => ?_
  rcases h c hc with rfl | rfl <;> decide

theorem Spaced.gap_append (hgap : IsGap gap) (h : Spaced ps t) : Spaced ps (gap ++ t) := by
  cases h with
  | nil h => exact .nil (hgap.append h)
  | cons h hrest =>
    rw [List.append_assoc, ← List.append_assoc, ← List.append_assoc]
    exact .cons (hgap.append h) hrest

theorem Spaced.append (hs : Spaced ps s) (ht : Spaced qs t) : Spaced (ps ++ qs) (s ++ t) := by
  induction hs with
  | nil hgap => exact ht.gap_append hgap
  | cons hgap _ ih =>
    rw [List.append_assoc]
    exact .cons hgap ih

theorem Spaced.append_gap (h : Spaced ps t) (hgap : IsGap gap) : Spaced ps (t ++ gap) := by
  have := h.append (.nil hgap)
  rwa [List.append_nil] at this

theorem Spaced.single (p : Piece) : Spaced [p] p.written := by
  have := Spaced.cons (p := p) .nil (.nil .nil)
  rwa [List.nil_append, List.append_nil] at this

/-- All texts with the same pieces are the same without spaces and line feeds. -/
theorem Spaced.withoutGaps_eq (h : Spaced ps t) :
    withoutGaps t = withoutGaps (ps.flatMap Piece.written) := by
  induction h with
  | nil hgap => exact hgap.withoutGaps_eq
  | cons hgap _ ih =>
    rw [withoutGaps_append, withoutGaps_append, hgap.withoutGaps_eq, ih, List.flatMap_cons,
      withoutGaps_append, List.nil_append]

end Gaps

/-! ## Rows -/

section Rows

variable {pretty : Bool} {ps qs : List Piece} {r : Row} {rows rows' : List Row}

theorem spaced_setRow (pretty : Bool) (h : Spaced ps r.text) :
    Spaced ps (Document.setRow pretty r) := by
  cases pretty with
  | false => exact h
  | true =>
    refine (h.gap_append (.repeated (2 * r.depth))).append_gap ?_
    simp [IsGap]

/-- The rows have the pieces, however they are set. -/
def Sets (rows : List Row) (ps : List Piece) : Prop :=
  ∀ pretty, Spaced ps (rows.flatMap (Document.setRow pretty))

theorem Sets.nil : Sets [] [] := fun _ => .nil .nil

theorem Sets.append (h : Sets rows ps) (h' : Sets rows' qs) : Sets (rows ++ rows') (ps ++ qs) := by
  intro pretty
  rw [List.flatMap_append]
  exact (h pretty).append (h' pretty)

theorem Sets.row {t : Text} (depth : Nat) (h : Spaced ps t) : Sets [⟨depth, t⟩] ps := by
  intro pretty
  rw [List.flatMap_singleton]
  exact spaced_setRow pretty h

theorem Sets.map {α : Type} {row : α → Row} {pieces : α → List Piece} {l : List α}
    (h : ∀ a ∈ l, Sets [row a] (pieces a)) : Sets (l.map row) (l.flatMap pieces) := by
  induction l with
  | nil => exact .nil
  | cons a l ih =>
    obtain ⟨ha, hl⟩ := List.forall_mem_cons.1 h
    exact ha.append (ih hl)

theorem sets_blockRows {α : Type} (name : Text) {text : α → Text} {pieces : α → List Piece}
    {l : List α} (h : ∀ a ∈ l, Spaced (pieces a) (text a)) :
    Sets (blockRows name (l.map text)) (blockPieces name (l.map pieces)) := by
  unfold blockRows blockPieces
  rw [List.isEmpty_map, List.isEmpty_map]
  split
  · exact .nil
  have hindented {t : Text} {ps : List Piece} (n : Nat) (ht : Spaced ps t) :
      Sets [⟨0, Text.repeated n ' ' ++ t⟩] ps :=
    .row 0 (ht.gap_append (.repeated n))
  have hinner : Sets ((l.map text).map fun t => ⟨0, Text.repeated 4 ' ' ++ t⟩)
      (l.map pieces).flatten := by
    rw [List.map_map, ← List.flatMap_def]
    exact .map fun a ha => hindented 4 (h a ha)
  exact (hindented 2 (.single (.opening name []))).append
    (hinner.append (hindented 2 (.single (.closing name))))

theorem spaced_arrowHead (s : Settings) : Spaced (arrowHeadPieces s) (arrowHead s) := by
  have h (opening shape closing : Piece) : Spaced [opening, shape, closing]
      (Text.join [opening.written, "\n      ", shape.written, "\n    ", closing.written]) := by
    have hgap : IsGap "\n      " ∧ IsGap "\n    " := by simp [IsGap]
    have h := (Spaced.single opening).append (((Spaced.single shape).gap_append hgap.1).append
      ((Spaced.single closing).gap_append hgap.2))
    simpa only [Text.join, List.flatten_cons, List.flatten_nil, List.append_assoc,
      List.append_nil, List.cons_append, List.nil_append] using h
  exact h _ _ _

theorem written_markPiece (s : Settings) (m : Mark) : (markPiece s m).written = markText s m := by
  cases m with
  | openGroup id => cases id <;> rfl
  | _ => rfl

theorem sets_markRows (s : Settings) (depth : Nat) (ms : List Mark) :
    Sets (markRows s depth ms) (ms.map (markPiece s)) := by
  induction ms generalizing depth with
  | nil => exact .nil
  | cons m ms ih =>
    have hmark : Sets [⟨depth, markText s m⟩] [markPiece s m] := by
      rw [← written_markPiece]
      exact .row depth (.single _)
    cases m with
    | closeGroup => exact Sets.append (.row (depth - 1) (.single (.closing "g"))) (ih (depth - 1))
    | _ => exact hmark.append (ih _)

end Rows

/-- The text of a document has the pieces of the document in their order. -/
theorem Document.spaced_text (d : Document) (s : Settings) (area : Box) :
    Spaced (d.pieces s area) (d.text s area) := by
  have hdeclaration : Sets (if s.standalone then
      [⟨0, "<?xml version=\"1.0\" encoding=\"UTF-8\"?>"⟩] else [])
      (if s.standalone then [.declaration] else []) := by
    split
    · exact .row 0 (.single .declaration)
    · exact .nil
  have hroot : Sets [⟨0, rootTag s area⟩] [rootPiece s area] := .row 0 (.single _)
  have hstyle : Sets (blockRows "style" (d.styles.map (·.text (s.className []))))
      (blockPieces "style" (d.styles.map fun style => [.rules (style.text (s.className []))])) :=
    sets_blockRows "style" fun style _ => .single (.rules _)
  have hdefs : Sets (blockRows "defs" (List.replicate d.arrowHeads (arrowHead s)))
      (blockPieces "defs" (List.replicate d.arrowHeads (arrowHeadPieces s))) := by
    have h := sets_blockRows "defs" (l := List.replicate d.arrowHeads s)
      fun s _ => spaced_arrowHead s
    rwa [List.map_replicate, List.map_replicate] at h
  have hlines : Sets (d.lines.map (lineRow s))
      (d.lines.map fun l => linePiece s l.start l.stop (lineClass l.kind)) := by
    rw [List.map_eq_flatMap (f := fun l : Segment => linePiece ..)]
    exact .map fun l _ => .row 1 (.single _)
  have hrows : Sets (d.rows s area) (d.headPieces s area ++
      d.lines.map (fun l => linePiece s l.start l.stop (lineClass l.kind)) ++
      d.marks.map (markPiece s)) := by
    have h := hdeclaration.append (hroot.append
      (((hstyle.append hdefs).append hlines).append (sets_markRows s 1 d.marks)))
    simp only [headPieces, List.append_assoc, List.cons_append, List.nil_append] at h ⊢
    rwa [rows, List.append_assoc, List.append_assoc]
  exact (hrows s.pretty).append (.single (.closing "svg"))

end Svg

/-- **The two ways to set a document differ only in the gaps between its pieces**: in spaces and
line feeds outside of every tag and every text. Without these they are the same. -/
theorem Layout.spaced_svg (l : Layout) (s : Svg.Settings) (stylesheet : Stylesheet) :
    let pieces := (l.draw s stylesheet).pieces s l.bounds
    let svg (pretty : Bool) := l.svg { s with pretty := pretty } stylesheet
    Svg.Spaced pieces (svg true) ∧ Svg.Spaced pieces (svg false) ∧
      Svg.withoutGaps (svg true) = Svg.withoutGaps (svg false) := by
  intro pieces svg
  have h (pretty : Bool) : Svg.Spaced pieces (svg pretty) :=
    Svg.Document.spaced_text _ { s with pretty := pretty } l.bounds
  exact ⟨h true, h false, (h true).withoutGaps_eq.trans (h false).withoutGaps_eq.symm⟩

end QuantumDiagram
