import QuantumDiagram.Proofs.Program.LineByLine
import QuantumDiagram.Proofs.Statement.Values

/-!
# Statements that stand elsewhere

What a statement does depends on its first word, on what is read of its text and on the indentation
of its line; where it stands shows only in the errors that it blames. So two statements that act
alike (`Pending.ActsAlike`) do the same to drafts that are alike, or fail alike
(`Draft.Alike.execute`). The relation between their errors is a parameter, which says what a change
of place does to an error. Statements with the same text act alike (`Pending.Alike.acts`), and so do
the parts of parallel lines with the same text. Lines are executed alike if the statements on them
are alike (`Draft.Alike.executeLines`).
-/

namespace QuantumDiagram

/-! ## Stretches that are moved -/

namespace Stretch

/-- The stretch, if the longer text begins `offset` bytes later. -/
def shift (offset : Nat) (s : Stretch) : Stretch := ⟨offset + s.offset, s.text⟩

theorem placeFrom_shift (gap offset start : Nat) (ts : List Text) :
    placeFrom gap (offset + start) ts = (placeFrom gap start ts).map (shift offset) := by
  induction ts generalizing start with
  | nil => rfl
  | cons t ts ih =>
    rw [placeFrom, placeFrom, List.map_cons, ← ih]
    simp only [shift, Nat.add_assoc]

theorem split_shift (separator : Char) (offset : Nat) (s : Stretch) :
    (s.shift offset).split separator = (s.split separator).map (shift offset) :=
  placeFrom_shift ..

theorem dropWhile_shift (offset : Nat) (s : Stretch) (p : Char → Bool) :
    (s.shift offset).dropWhile p = (s.dropWhile p).shift offset := by
  simp only [dropWhile, shift, Nat.add_assoc]

theorem span_shift (offset : Nat) (s : Stretch) : (s.shift offset).span = s.span.shift offset := by
  simp only [span, shift, Span.ofTrimmed, Span.shift, Nat.add_assoc, Nat.add_max_add_left]

end Stretch

namespace Pending

theorem afterOpening_shift (offset : Nat) (s : Stretch) :
    afterOpening (s.shift offset) = (afterOpening s).shift offset := by
  rw [afterOpening, afterOpening, Stretch.dropWhile_shift, Stretch.dropWhile_shift]
  exact (apply_ite (Stretch.shift offset) _ _ _).symm

theorem mapLast_map {α β : Type} {f : α → α} {f' : β → β} {g : α → β}
    (h : ∀ x, f' (g x) = g (f x)) (l : List α) : mapLast f' (l.map g) = (mapLast f l).map g := by
  fun_induction mapLast f l with
  | case1 => rfl
  | case2 x => exact congrArg (fun y => [y]) (h x)
  | case3 x rest hne ih =>
    cases rest with
    | nil => exact absurd rfl hne
    | cons y rest => exact congrArg (g x :: ·) ih

theorem segments_shift (p : Pending) (offset : Nat) :
    ({ p with stretch := p.stretch.shift offset } : Pending).segments =
      p.segments.map (Stretch.shift offset) := by
  have hhead (l : List Stretch) : (l.map (Stretch.shift offset)).modifyHead afterOpening =
      (l.modifyHead afterOpening).map (Stretch.shift offset) := by
    cases l with
    | nil => rfl
    | cons s l => exact congrArg (· :: l.map _) (afterOpening_shift offset s)
  rw [segments, Stretch.split_shift, hhead]
  have hclosing (s : Stretch) : beforeClosing (s.shift offset) =
      (beforeClosing s).shift offset := rfl
  exact mapLast_map hclosing _

/-- The segments of a parallel line are given by its text, but for their offsets. -/
theorem segments_eq_map (p : Pending) :
    p.segments = (segments { p with stretch := ⟨0, p.text⟩ }).map
      (Stretch.shift p.stretch.offset) := by
  rw [← segments_shift]
  rfl

end Pending

/-! ## Statements and drafts that are alike -/

variable {E : ParseError → ParseError → Prop}

/-- The statements differ only in where they stand; `E` relates errors at the same place of them. -/
structure Pending.Alike (E : ParseError → ParseError → Prop) (p q : Pending) : Prop where
  text : q.text = p.text
  indented : q.indented = p.indented
  located (fault : Fault) (s : Span) : E (p.error fault (p.locate s)) (q.error fault (q.locate s))

/-- The values are the same, and `E` relates the errors that blame where they stand in the two
statements. -/
structure Located.Alike (E : ParseError → ParseError → Prop) (p q : Pending) {α : Type}
    (x y : Located α) : Prop where
  value : y.value = x.value
  located (fault : Fault) : E (p.error fault (p.locate x.span)) (q.error fault (q.locate y.span))

/-- The statements, whatever their texts are, begin with the same word and are read as the same. -/
structure Pending.ActsAlike (E : ParseError → ParseError → Prop) (p q : Pending) : Prop where
  leadingWord : Draft.leadingWord q = Draft.leadingWord p
  indented : q.indented = p.indented
  spanned (fault : Fault) : E (p.error fault p.span) (q.error fault q.span)
  read : SameOutcome (Located.Alike E p q) (Statement.Pairs (Located.Alike E p q))
    (Statement.read p.text) (Statement.read q.text)

/-- The open subroutines differ only in where their headers stand. -/
structure OpenSubroutine.Alike (E : ParseError → ParseError → Prop) (o o' : OpenSubroutine) :
    Prop where
  name : o'.name = o.name
  repetitions : o'.repetitions = o.repetitions
  start : o'.start = o.start
  blamed (fault : Fault) :
    E ⟨fault, o.line.number, o.line.text, o.span⟩ ⟨fault, o'.line.number, o'.line.text, o'.span⟩

/-- The drafts differ only in where the header of the open subroutine stands. -/
inductive Draft.Alike (E : ParseError → ParseError → Prop) (d : Draft) : Draft → Prop
  | intro {opened : Option OpenSubroutine} :
    Option.Rel (OpenSubroutine.Alike E) d.opened opened → Draft.Alike E d { d with opened }

/-- What two statements have done is alike: the drafts after them are, and both statements placed a
gate or none did. -/
structure Draft.AlikeAfter (E : ParseError → ParseError → Prop) (x y : Draft × Bool) : Prop where
  draft : x.1.Alike E y.1
  placed : x.2 = y.2

namespace Pending.Alike

variable {p q : Pending}

theorem spanned (h : p.Alike E q) (fault : Fault) :
    E (p.error fault p.span) (q.error fault q.span) := by
  have hspan (r : Pending) : r.span = r.locate (⟨0, r.text⟩ : Stretch).span :=
    Stretch.span_shift r.stretch.offset ⟨0, r.text⟩
  rw [hspan p, hspan q, h.text]
  exact h.located fault _

/-- What is read of a text is alike to itself. -/
theorem acts (h : p.Alike E q) : p.ActsAlike E q where
  leadingWord := by rw [Draft.leadingWord, Draft.leadingWord, h.text]
  indented := h.indented
  spanned := h.spanned
  read := by
    have hsame {α : Type} (x : Located α) : x.Alike E p q x := ⟨rfl, fun fault => h.located fault _⟩
    rw [h.text]
    cases Statement.read p.text with
    | error e => exact .error (hsame e)
    | ok statement => exact .ok (.refl hsame statement)

theorem isParallel (h : p.Alike E q) : q.isParallel = p.isParallel := by
  rw [Pending.isParallel, Pending.isParallel, h.text]

theorem part (h : p.Alike E q) (s : Stretch) :
    Pending.Alike E ⟨s.shift p.stretch.offset, p.line, p.indented⟩
      ⟨s.shift q.stretch.offset, q.line, q.indented⟩ where
  text := rfl
  indented := h.indented
  located fault t := by
    have hspan (offset : Nat) : t.shift (offset + s.offset) = (t.shift s.offset).shift offset := by
      simp only [Span.shift, Nat.add_assoc]
    have hlocated := h.located fault (t.shift s.offset)
    rw [locate, locate, ← hspan, ← hspan] at hlocated
    exact hlocated

/-- The parts of parallel lines that are alike are alike. -/
theorem parts (h : p.Alike E q) :
    SameOutcome E (List.Forall₂ (Pending.Alike E)) p.parts q.parts := by
  have hq := segments_eq_map q
  rw [h.text] at hq
  have hsegments : segments { q with stretch := ⟨0, p.text⟩ } =
      segments { p with stretch := ⟨0, p.text⟩ } := rfl
  rw [hsegments] at hq
  rw [Pending.parts, Pending.parts, segments_eq_map p, hq]
  -- Both lines have the segments `ss`, each at the offset of its own line.
  generalize segments { p with stretch := ⟨0, p.text⟩ } = ss
  have hbrace (offset : Nat) : (hasBrace ·.text) ∘ Stretch.shift offset = (hasBrace ·.text) := rfl
  have hblank (offset : Nat) : (! Text.isBlank ·.text) ∘ Stretch.shift offset =
      (! Text.isBlank ·.text) := rfl
  rw [List.find?_map, List.find?_map, hbrace, hbrace, List.filter_map, List.filter_map, hblank,
    hblank]
  cases ss.find? (hasBrace ·.text) with
  | some s =>
    refine .error ?_
    have hspan (r : Pending) : Span.ofText (s.shift r.stretch.offset).offset s.text =
        r.locate (Span.ofText s.offset s.text) := by
      simp only [Span.ofText, Stretch.shift, locate, Span.shift, Nat.add_assoc]
    have hlocated := h.located (.malformedStatement .nestedBlock) (Span.ofText s.offset s.text)
    rw [← hspan, ← hspan] at hlocated
    exact hlocated
  | none =>
    refine .ok ?_
    rw [List.map_map, List.map_map, List.forall₂_map_left_iff, List.forall₂_map_right_iff]
    exact List.forall₂_same.2 fun s _ => h.part s

theorem statements (h : p.Alike E q) :
    SameOutcome E (List.Forall₂ (Pending.Alike E)) p.statements q.statements := by
  rw [Pending.statements, Pending.statements, h.isParallel, h.text]
  split
  · exact h.parts
  · split
    · exact .ok .nil
    · exact .ok (.cons h .nil)

end Pending.Alike

/-! ## Executing statements that are alike -/

theorem rel_getLast? {α β : Type} {R : α → β → Prop} {as : List α} {bs : List β}
    (h : List.Forall₂ R as bs) : Option.Rel R as.getLast? bs.getLast? := by
  induction h with
  | nil => exact .none
  | cons hab hrest ih =>
    cases hrest with
    | nil => exact .some hab
    | cons => exact ih

theorem forall₂_dropLast {α β : Type} {R : α → β → Prop} {as : List α} {bs : List β}
    (h : List.Forall₂ R as bs) : List.Forall₂ R as.dropLast bs.dropLast := by
  rw [List.dropLast_eq_take, List.dropLast_eq_take, h.length_eq]
  exact List.forall₂_take _ h

namespace Draft

variable {d e : Draft} {p q : Pending}

theorem repetitionCount_alike {repetitions repetitions' : Option (Located Float)}
    (h : Option.Rel (Located.Alike E p q) repetitions repetitions') :
    SameOutcome E (· = ·) (repetitionCount p repetitions) (repetitionCount q repetitions') := by
  cases h with
  | none => exact .ok rfl
  | @some x y hxy =>
    unfold repetitionCount
    dsimp only
    rw [hxy.value]
    split
    · exact .ok rfl
    · exact .error (hxy.located _)

theorem unresolved_alike {operand operand' : Located Operand} (h : operand.Alike E p q operand') :
    E (unresolved p operand) (unresolved q operand') := by
  unfold unresolved
  rw [h.value]
  exact h.located _

theorem resolveBy_alike {operand operand' : Located Operand} (h : operand.Alike E p q operand')
    (find : Text → Option Channel) :
    SameOutcome E (· = ·) (resolveBy find p operand) (resolveBy find q operand') := by
  have hunresolved := unresolved_alike h
  unfold resolveBy
  rw [h.value]
  split
  · rename_i n _
    cases find n with
    | none => exact .error hunresolved
    | some c => exact .ok rfl
  · exact .error hunresolved

theorem measuredIndex_alike {operand operand' : Channel × Span}
    (h : (⟨operand.1, operand.2⟩ : Located Channel).Alike E p q ⟨operand'.1, operand'.2⟩) :
    SameOutcome E (· = ·) (measuredIndex p operand) (measuredIndex q operand') := by
  obtain ⟨c, s⟩ := operand
  obtain ⟨c', s'⟩ := operand'
  obtain rfl : c' = c := h.value
  cases c' with
  | qubit i => exact .ok rfl
  | bit i => exact .error (h.located _)

theorem forall₂_zip_span {operands operands' : List (Located Operand)}
    (h : List.Forall₂ (Located.Alike E p q) operands operands') (channels : List Channel) :
    List.Forall₂ (fun x y => (⟨x.1, x.2⟩ : Located Channel).Alike E p q ⟨y.1, y.2⟩)
      (channels.zip (operands.map Located.span)) (channels.zip (operands'.map Located.span)) := by
  induction h generalizing channels with
  | nil => simp
  | cons hxy _ ih =>
    cases channels with
    | nil => exact .nil
    | cons c channels => exact .cons ⟨rfl, hxy.located⟩ (ih channels)

theorem splitAngle_alike {operands operands' : List (Located Operand)}
    (h : List.Forall₂ (Located.Alike E p q) operands operands') (gate : Gate) :
    SameOutcome E (fun x y => y.1 = x.1 ∧ List.Forall₂ (Located.Alike E p q) x.2 y.2)
      (splitAngle p gate operands) (splitAngle q gate operands') := by
  unfold splitAngle
  split
  · have hlast := rel_getLast? h
    generalize operands.getLast? = last, operands'.getLast? = last' at hlast
    cases hlast with
    | none => exact .ok ⟨rfl, h⟩
    | @some last last' hlast =>
      dsimp only
      rw [hlast.value]
      split
      · exact .ok ⟨rfl, forall₂_dropLast h⟩
      · exact .error (unresolved_alike hlast)
  · exact .ok ⟨rfl, h⟩

namespace Alike

theorem of_opened (h : d.opened = none) : d.Alike E d :=
  .intro (d := d) (h ▸ .none)

theorem qubits (h : d.Alike E e) : e.qubits = d.qubits := by
  cases h
  rfl

theorem column (h : d.Alike E e) : e.column = d.column := by
  cases h
  rfl

theorem channelOf? (h : d.Alike E e) : e.channelOf? = d.channelOf? := by
  cases h
  rfl

theorem setColumn (h : d.Alike E e) (column : Nat) :
    Draft.Alike E { d with column } { e with column } := by
  obtain ⟨hopened⟩ := h
  exact .intro (d := { d with column }) hopened

theorem closeSubroutine (h : d.Alike E e) :
    SameOutcome E (Draft.Alike E) d.closeSubroutine e.closeSubroutine := by
  obtain ⟨qubits, aliases, grid, opened, subroutines, column⟩ := d
  obtain ⟨hopened⟩ := h
  cases hopened with
  | none => exact .ok (.intro .none)
  | @some o o' ho =>
    show SameOutcome E _ (if o.start = column then _ else _) (if o'.start = column then _ else _)
    rw [ho.start, ho.name, ho.repetitions]
    -- An empty subroutine is the one error that does not blame the statement at hand.
    split
    · exact .error (ho.blamed _)
    · exact .ok (.intro .none)

theorem openSubroutine (h : d.Alike E e) (hp : p.ActsAlike E q) {name name' : Located Text}
    (hname : name.Alike E p q name') {repetitions repetitions' : Option (Located Float)}
    (hrepetitions : Option.Rel (Located.Alike E p q) repetitions repetitions') :
    SameOutcome E (Draft.Alike E) (d.openSubroutine p name repetitions)
      (e.openSubroutine q name' repetitions') := by
  refine h.closeSubroutine.bind fun d e hde => ?_
  refine (repetitionCount_alike hrepetitions).bind fun count _ hcount => ?_
  cases hcount
  obtain ⟨-⟩ := hde
  exact .ok (.intro (.some ⟨hname.value, rfl, rfl, hp.spanned⟩))

theorem giveName (h : d.Alike E e) (c : Channel) (name : Text) :
    (d.giveName c name).Alike E (e.giveName c name) := by
  obtain ⟨hopened⟩ := h
  exact .intro (d := d.giveName c name) hopened

theorem bindAlias (h : d.Alike E e) (hp : p.ActsAlike E q)
    {operands operands' : List (Located Operand)}
    (hoperands : List.Forall₂ (Located.Alike E p q) operands operands') :
    SameOutcome E (Draft.Alike E) (d.bindAlias p operands) (e.bindAlias q operands') := by
  cases hoperands with
  | nil => exact .error (hp.spanned _)
  | cons htarget hrest =>
    cases hrest with
    | nil => exact .error (hp.spanned _)
    | cons hgiven hrest =>
      cases hrest with
      | nil =>
        unfold Draft.bindAlias
        dsimp only
        rw [h.qubits, hgiven.value]
        refine (resolveBy_alike htarget _).bind fun c _ hc => ?_
        cases hc
        split
        · exact .ok (h.giveName c _)
        · exact .error (hgiven.located _)
      | cons _ hrest =>
        simp only [Draft.bindAlias, List.length_cons, hrest.length_eq]
        exact .error (hp.spanned _)

theorem occupy (h : d.Alike E e) (hp : p.ActsAlike E q) (i : Instruction) :
    SameOutcome E (Draft.Alike E) (d.occupy p i) (e.occupy q i) := by
  obtain ⟨hopened⟩ := h
  unfold Draft.occupy
  dsimp only
  split
  · exact .error (hp.spanned _)
  · exact .ok (.intro (d := { d with grid := d.grid.place i }) hopened)

theorem measure (h : d.Alike E e) (hp : p.ActsAlike E q) (channels : List Channel)
    {operands operands' : List (Located Operand)}
    (hoperands : List.Forall₂ (Located.Alike E p q) operands operands') :
    SameOutcome E (Draft.Alike E) (d.measure p (channels.zip (operands.map Located.span)))
      (e.measure q (channels.zip (operands'.map Located.span))) := by
  have hmeasured := forall₂_zip_span hoperands channels
  have hempty : (channels.zip (operands'.map Located.span)).isEmpty =
      (channels.zip (operands.map Located.span)).isEmpty := by
    rw [Bool.eq_iff_iff, List.isEmpty_iff_length_eq_zero, List.isEmpty_iff_length_eq_zero,
      hmeasured.length_eq]
  have hnamed := SameOutcome.mapM hmeasured fun _ _ h => measuredIndex_alike h
  rw [List.forall₂_eq_eq_eq] at hnamed
  unfold Draft.measure
  rw [h.qubits, hempty]
  refine hnamed.bind fun named _ hnamed => ?_
  cases hnamed
  refine SameOutcome.foldlM (P := (· = ·)) (List.forall₂_same.2 fun _ _ => rfl) ?_ h
  intro d e index _ hde hindex
  cases hindex
  rw [hde.column]
  exact hde.occupy hp _

theorem placeGate (h : d.Alike E e) (hp : p.ActsAlike E q) (entry : Catalog.Entry)
    {operands operands' : List (Located Operand)}
    (hoperands : List.Forall₂ (Located.Alike E p q) operands operands') :
    SameOutcome E (Draft.Alike E) (d.placeGate p entry operands)
      (e.placeGate q entry operands') := by
  unfold Draft.placeGate
  refine (splitAngle_alike hoperands entry.gate).bind fun ⟨angle, operands⟩ ⟨_, operands'⟩ => ?_
  rintro ⟨⟨⟩, hoperands⟩
  have hchannels := SameOutcome.mapM hoperands fun x y hxy => resolveBy_alike hxy d.channelOf?
  rw [List.forall₂_eq_eq_eq] at hchannels
  have hresolve : e.resolve q = resolveBy d.channelOf? q := by
    unfold resolve
    rw [h.channelOf?]
  dsimp only
  rw [hresolve]
  refine hchannels.bind fun channels _ hchannels => ?_
  cases hchannels
  split
  · exact h.measure hp channels hoperands
  · rw [h.column]
    exact h.occupy hp _

theorem instruct (h : d.Alike E e) (hp : p.ActsAlike E q) {keyword keyword' : Located Text}
    (hkeyword : keyword.Alike E p q keyword') {operands operands' : List (Located Operand)}
    (hoperands : List.Forall₂ (Located.Alike E p q) operands operands') :
    SameOutcome E (Draft.AlikeAfter E) (d.instruct p keyword operands)
      (e.instruct q keyword' operands') := by
  unfold Draft.instruct
  dsimp only
  rw [hkeyword.value, hoperands.length_eq]
  split
  · exact .ok ⟨h, rfl⟩
  · split
    · exact .error (hkeyword.located _)
    · split
      · split
        · exact (h.bindAlias hp hoperands).map fun _ _ h => ⟨h, rfl⟩
        · exact (h.placeGate hp _ hoperands).map fun _ _ h => ⟨h, rfl⟩
      · exact .error (hp.spanned _)

theorem leaveSubroutine (h : d.Alike E e) (hp : p.ActsAlike E q) :
    SameOutcome E (Draft.Alike E) (d.leaveSubroutine p) (e.leaveSubroutine q) := by
  unfold Draft.leaveSubroutine
  rw [hp.leadingWord, hp.indented]
  split
  · exact .ok h
  · exact h.closeSubroutine

/-- **A statement does the same wherever it stands**, or fails for the same cause. -/
theorem execute (h : d.Alike E e) (hp : p.ActsAlike E q) :
    SameOutcome E (Draft.AlikeAfter E) (d.execute p) (e.execute q) := by
  unfold Draft.execute
  rw [hp.leadingWord]
  split
  · exact .ok ⟨h, rfl⟩
  · refine (h.leaveSubroutine hp).bind fun d e hde => ?_
    split
    · exact .ok ⟨hde, rfl⟩
    · have hread := hp.read
      generalize Statement.read p.text = read, Statement.read q.text = read' at hread
      cases hread with
      | error herror =>
        dsimp only
        rw [herror.value]
        exact .error (herror.located _)
      | ok hstatement =>
        cases hstatement with
        | header hname hrepetitions =>
          exact (hde.openSubroutine hp hname hrepetitions).map fun _ _ h => ⟨h, rfl⟩
        | instruction hkeyword hoperands => exact hde.instruct hp hkeyword hoperands

/-! ## Lines -/

theorem executeAll {ps qs : List Pending} (h : d.Alike E e)
    (hps : List.Forall₂ (·.ActsAlike E ·) ps qs) (column : Nat) :
    SameOutcome E (Draft.AlikeAfter E) (d.executeAll column ps)
      (e.executeAll column qs) := by
  induction hps generalizing d e with
  | nil => exact .ok ⟨h, rfl⟩
  | cons hp _ ih =>
    refine ((h.setColumn column).execute hp).bind fun x y hxy => ?_
    refine (ih hxy.draft).bind fun x' y' hxy' => ?_
    exact .ok ⟨hxy'.draft, by rw [hxy.placed, hxy'.placed]⟩

/-- Lines whose statements act alike do the same. -/
theorem executeLine_of_statements {l l' : Line} (h : d.Alike E e)
    (hl : SameOutcome E (List.Forall₂ (·.ActsAlike E ·)) (Pending.ofLine l).statements
      (Pending.ofLine l').statements) :
    SameOutcome E (Draft.Alike E) (d.executeLine l) (e.executeLine l') := by
  refine hl.bind fun ps qs hps => ?_
  rw [h.column]
  refine (h.executeAll hps d.column).bind fun x y hxy => ?_
  obtain ⟨x, placed⟩ := x
  obtain ⟨y, placed'⟩ := y
  obtain ⟨hxy, hplaced⟩ := hxy
  cases hplaced
  exact .ok (hxy.setColumn _)

theorem executeLine {l l' : Line} (h : d.Alike E e)
    (hl : (Pending.ofLine l).Alike E (Pending.ofLine l')) :
    SameOutcome E (Draft.Alike E) (d.executeLine l) (e.executeLine l') :=
  h.executeLine_of_statements
    (hl.statements.imp (fun _ _ he => he) fun _ _ hps => hps.imp fun _ _ hp => hp.acts)

/-- Lines that are alike do the same, or fail for the same cause. -/
theorem executeLines {ls ls' : List Line} (h : d.Alike E e)
    (hls : List.Forall₂ (fun l l' => (Pending.ofLine l).Alike E (Pending.ofLine l')) ls ls') :
    SameOutcome E (Draft.Alike E) (ls.foldlM Draft.executeLine d)
      (ls'.foldlM Draft.executeLine e) :=
  .foldlM hls (fun _ _ _ _ h hl => h.executeLine hl) h

theorem finish (h : d.Alike E e) : SameOutcome E (· = ·) d.finish e.finish :=
  h.closeSubroutine.map fun _ _ hde => by
    obtain ⟨-⟩ := hde
    rfl

end Alike

end Draft

end QuantumDiagram
