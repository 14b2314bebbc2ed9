import QuantumDiagram.Proofs.Program.LineByLine
import QuantumDiagram.Proofs.Program.Naming
import QuantumDiagram.Proofs.Program.Occupation
import QuantumDiagram.Proofs.Program.StatementError
import QuantumDiagram.Proofs.Statement.Gaps

/-!
# Gate statements

A statement that is no header and no directive applies a gate. `Draft.instructions?` says which
instructions it stands for: that depends on the names of the channels and on the column, but not on
what has been placed. Executing such statements, one after the other in one column, ends the open
subroutine if the line is not indented, and then puts the instructions of all of them into free
cells (`Draft.executeAll_gates`).
-/

namespace QuantumDiagram

/-- Whether the text, if it is a statement, applies a gate: it is no header of a subroutine, and no
directive `display`, `error_model`, `qubits` or `map`, in small letters or capitals. -/
def Text.isGateStatement (t : Text) : Bool :=
  let word := lower (firstWord t)
  !(startsWith word "." || startsWith word "display" || word = "error_model".toList ||
    word = "qubits".toList || word = Gate.map.name)

/-- The site that a fault tells of, if it is that the site is taken. -/
def Fault.takenSite? : Fault → Option Site
  | .malformedStatement (.siteTaken c k) => some ⟨c, k⟩
  | _ => none

theorem toOption_mapM {ε α β : Type} (f : α → Except ε β) (as : List α) :
    (as.mapM f).toOption = as.mapM fun a => (f a).toOption := by
  induction as with
  | nil => rfl
  | cons a as ih =>
    rw [List.mapM_cons, List.mapM_cons, ← ih]
    cases f a with
    | error e => rfl
    | ok b => cases as.mapM f <;> rfl

theorem mapM_eq_some_iff {α β : Type} {f : α → Option β} {as : List α} {bs : List β} :
    as.mapM f = some bs ↔ List.Forall₂ (fun a b => f a = some b) as bs := by
  induction as generalizing bs with
  | nil =>
    rw [List.forall₂_nil_left_iff]
    exact ⟨fun h => (Option.some.inj h).symm, fun h => congrArg some h.symm⟩
  | cons a as ih =>
    simp only [List.mapM_cons, Option.bind_eq_bind, Option.bind_eq_some_iff,
      List.forall₂_cons_left_iff, ih]
    constructor
    · rintro ⟨b, hb, bs, hbs, ⟨⟩⟩
      exact ⟨b, bs, hb, hbs, rfl⟩
    · rintro ⟨b, bs, hb, hbs, rfl⟩
      exact ⟨b, hb, bs, hbs, rfl⟩

theorem Grid.places_append {g h : Grid} {is js : List Instruction} :
    g.Places (is ++ js) h ↔ ∃ k, g.Places is k ∧ k.Places js h := by
  induction is generalizing g with
  | nil =>
    refine ⟨fun hp => ⟨g, .nil, hp⟩, ?_⟩
    rintro ⟨_, ⟨⟩, hp⟩
    exact hp
  | cons i is ih =>
    constructor
    · intro hp
      cases hp with
      | cons hfree hrest =>
        obtain ⟨k, hk, hh⟩ := ih.1 hrest
        exact ⟨k, .cons hfree hk, hh⟩
    · rintro ⟨k, hk, hh⟩
      cases hk with
      | cons hfree hrest => exact .cons hfree (ih.2 ⟨k, hrest, hh⟩)

namespace Draft

variable {d e f : Draft} {p : Pending} {err : ParseError}

/-! ## What a gate statement stands for -/

/-- The angle of a rotation, if there is one, and the other operands. -/
def splitAngle? (gate : Gate) (operands : List Operand) : Option (Option Float × List Operand) :=
  if gate.takesAngle then
    match operands.getLast? with
    | none => some (none, operands)
    | some (.number x) => some (some x, operands.dropLast)
    | some (.name _) => none
  else some (none, operands)

/-- The channel that an operand stands for. -/
def operandChannel? (d : Draft) : Operand → Option Channel
  | .name n => d.channelOf? n
  | .number _ => none

/-- The index of a qubit. -/
def qubitIndex? : Channel → Option Nat
  | .qubit i => some i
  | .bit _ => none

/-- The instructions of a gate on the operands. -/
def gateInstructions? (d : Draft) (entry : Catalog.Entry) (operands : List Operand) :
    Option (List Instruction) := do
  let (angle, operands) ← splitAngle? entry.gate operands
  let channels ← operands.mapM d.operandChannel?
  if entry.gate = .measure then do
    let named ← channels.mapM qubitIndex?
    let targets := if channels.isEmpty then List.range d.qubits else named
    some (targets.map (measurement d.column))
  else
    some [{
      gate := entry.gate
      classicalControl := isControlledClassically entry.control channels
      operands := channels
      column := d.column
      participants := .ofList channels
      angle }]

/-- The instructions that a gate statement stands for. -/
def instructions? (d : Draft) (t : Text) : Option (List Instruction) := do
  let (keyword, operands) ← Statement.instruction? t
  let entry ← Catalog.lookup? (Text.lower keyword)
  if entry.arity.accepts operands.length then d.gateInstructions? entry operands else none

/-! ## Where the operands stand does not matter -/

theorem splitAngle?_map_value (gate : Gate) (operands : List (Located Operand)) :
    splitAngle? gate (operands.map Located.value) =
      (splitAngle p gate operands).toOption.map fun x => (x.1, x.2.map Located.value) := by
  unfold splitAngle? splitAngle
  rw [List.getLast?_map]
  split
  · cases operands.getLast? with
    | none => rfl
    | some last =>
      obtain ⟨value, span⟩ := last
      cases value with
      | number x =>
        show some (some x, (operands.map Located.value).dropLast) = _
        rw [← List.map_dropLast]
        rfl
      | name n => rfl
  · rfl

theorem operandChannel?_value (operand : Located Operand) :
    d.operandChannel? operand.value = (d.resolve p operand).toOption := by
  obtain ⟨value, span⟩ := operand
  cases value with
  | name n =>
    cases hn : d.channelOf? n <;> simp [operandChannel?, resolve, resolveBy, hn, Except.toOption]
  | number x => rfl

theorem mapM_operandChannel? (operands : List (Located Operand)) :
    (operands.map Located.value).mapM d.operandChannel? =
      (operands.mapM (d.resolve p)).toOption := by
  rw [toOption_mapM, List.mapM_map]
  exact congrArg operands.mapM (funext fun operand => operandChannel?_value operand)

theorem mapM_qubitIndex? {channels : List Channel} {spans : List Span}
    (h : channels.length = spans.length) :
    channels.mapM qubitIndex? = ((channels.zip spans).mapM (measuredIndex p)).toOption := by
  have hindex (x : Channel × Span) : (measuredIndex p x).toOption = qubitIndex? x.1 := by
    obtain ⟨c, span⟩ := x
    cases c <;> rfl
  have hmap := List.mapM_map (f := Prod.fst) (g := qubitIndex?) (l := channels.zip spans)
  rw [List.map_fst_zip h.le] at hmap
  rw [toOption_mapM, hmap]
  exact congrArg (channels.zip spans).mapM (funext fun x => (hindex x).symm)

/-! ## Placing a gate -/

/-- How a gate is placed, given the instructions that it stands for: they are put into the column of
`d`, or there are none, because there is another error. -/
inductive Attempts (d : Draft) (p : Pending) :
    Option (List Instruction) → Except ParseError Draft → Prop
  | occupies (is : List Instruction) : Attempts d p (some is) (d.occupyAll p is)
  | refused {err : ParseError} (other : err.fault.takenSite? = none) :
      Attempts d p none (.error err)

/-- What comes first decides about the instructions as it decides about the gate. -/
theorem Attempts.bind {α β : Type} {x : Option β} {y : Except ParseError α} {k : α → β}
    (hx : x = y.toOption.map k) (hy : ∀ err, y = .error err → err.fault.takenSite? = none)
    {f : β → Option (List Instruction)} {g : α → Except ParseError Draft}
    (h : ∀ a, y = .ok a → d.Attempts p (f (k a)) (g a)) : d.Attempts p (x >>= f) (y >>= g) := by
  subst hx
  cases y with
  | error err => exact .refused (hy err rfl)
  | ok a => exact h a rfl

/-- A gate is placed just if its instructions are put into free cells. -/
theorem Attempts.eq_ok {is : Option (List Instruction)} {x : Except ParseError Draft}
    (h : d.Attempts p is x) : x = .ok f ↔
      ∃ js g, is = some js ∧ d.grid.Places js g ∧ f = { d with grid := g } := by
  cases h with
  | occupies is => simp [occupyAll_eq_ok]
  | refused _ => simp

theorem foldlM_occupy_eq_occupyAll (targets : List Nat) :
    targets.foldlM (fun d index => d.occupy p (measurement d.column index)) d =
      d.occupyAll p (targets.map (measurement d.column)) := by
  induction targets generalizing d with
  | nil => rfl
  | cons index targets ih =>
    rw [List.foldlM_cons, List.map_cons, occupyAll_cons]
    cases hoccupy : d.occupy p (measurement d.column index) with
    | error err => rfl
    | ok e =>
      rw [← occupy_column hoccupy]
      exact ih

theorem measure_attempts {channels : List Channel} {spans : List Span}
    (h : channels.length = spans.length) :
    d.Attempts p (channels.mapM qubitIndex? >>= fun named =>
        some ((if channels.isEmpty then List.range d.qubits else named).map
          (measurement d.column))) (d.measure p (channels.zip spans)) := by
  have hempty : (channels.zip spans).isEmpty = channels.isEmpty := by
    cases channels with
    | nil => rfl
    | cons c channels =>
      cases spans with
      | nil => cases h
      | cons s spans => rfl
  have hnamed := mapM_qubitIndex? (p := p) h
  refine .bind (k := id) (by rw [hnamed, Option.map_id]; rfl) (fun err herror => ?_)
    fun named _ => ?_
  · obtain ⟨operand, -, hoperand⟩ := exists_of_mapM_error herror
    unfold measuredIndex at hoperand
    split at hoperand
    · cases hoperand
    · cases hoperand
      rfl
  · show d.Attempts p _ (List.foldlM _ d (if (channels.zip spans).isEmpty then _ else named))
    rw [hempty, foldlM_occupy_eq_occupyAll]
    exact .occupies _

theorem splitAngle_takenSite? {gate : Gate} {operands : List (Located Operand)}
    (h : splitAngle p gate operands = .error err) : err.fault.takenSite? = none := by
  unfold splitAngle at h
  split at h
  · split at h
    · cases h
    · split at h
      · cases h
      · cases h
        rfl
  · cases h

theorem resolve_takenSite? {operands : List (Located Operand)}
    (h : operands.mapM (d.resolve p) = .error err) : err.fault.takenSite? = none := by
  obtain ⟨operand, -, hoperand⟩ := exists_of_mapM_error h
  rw [resolveBy_error hoperand]
  rfl

theorem placeGate_attempts (entry : Catalog.Entry) (operands : List (Located Operand)) :
    d.Attempts p (d.gateInstructions? entry (operands.map Located.value))
      (d.placeGate p entry operands) := by
  refine .bind (splitAngle?_map_value _ _) (fun _ => splitAngle_takenSite?)
    fun ⟨angle, rest⟩ _ => ?_
  refine .bind (k := id) (by rw [mapM_operandChannel? (p := p), Option.map_id]; rfl)
    (fun _ => resolve_takenSite?) fun channels hchannels => ?_
  by_cases hgate : entry.gate = .measure
  · rw [if_pos hgate, if_pos hgate]
    have hlength : channels.length = (rest.map Located.span).length := by
      rw [List.length_map, length_of_mapM_ok hchannels]
    exact measure_attempts hlength
  · rw [if_neg hgate, if_neg hgate, ← occupyAll_singleton]
    exact .occupies _

theorem instruct_attempts {keyword : Located Text}
    (hqubits : Text.lower keyword.value ≠ "qubits".toList)
    (hmap : Text.lower keyword.value ≠ Gate.map.name) (operands : List (Located Operand)) :
    ∃ x, d.instruct p keyword operands = x.map (·, true) ∧
      d.Attempts p (Catalog.lookup? (Text.lower keyword.value) >>= fun entry =>
        if entry.arity.accepts (operands.map Located.value).length then
          d.gateInstructions? entry (operands.map Located.value) else none) x := by
  unfold instruct
  dsimp only
  rw [if_neg hqubits, List.length_map]
  cases hlookup : Catalog.lookup? (Text.lower keyword.value) with
  | none => exact ⟨.error _, rfl, .refused rfl⟩
  | some entry =>
    have hrole : entry.role ≠ .declaration := fun h => hmap ((lookup?_declaration hlookup).1 h)
    dsimp only
    rw [Option.bind_eq_bind, Option.bind_some]
    cases harity : entry.arity.accepts operands.length with
    | false => exact ⟨.error _, rfl, .refused rfl⟩
    | true =>
      refine ⟨d.placeGate p entry operands, ?_, placeGate_attempts entry operands⟩
      rw [if_pos rfl]
      split
      · exact absurd ‹_› hrole
      · rfl

/-! ## Executing gate statements -/

/-- The draft that a gate statement finds: on a line that is not indented, the open subroutine has
ended. -/
def left (d : Draft) (indented : Bool) : Except ParseError Draft :=
  if indented then .ok d else d.closeSubroutine

/-- Having ended, the subroutine need not end again. -/
theorem left_left {indented : Bool} (h : d.left indented = .ok e) (g : Grid) :
    Draft.left { e with grid := g } indented = .ok { e with grid := g } := by
  unfold left at h ⊢
  cases indented with
  | true => rfl
  | false =>
    obtain ⟨hopened, rfl⟩ | ⟨o, -, -, rfl⟩ := closeSubroutine_ok h
    · rw [closeSubroutine, hopened]
      rfl
    · rfl

theorem left_eq {indented : Bool} (h : d.left indented = .ok e) :
    e = d ∨ d.closeSubroutine = .ok e := by
  unfold left at h
  split at h
  · cases h
    exact .inl rfl
  · exact .inr h

/-- What a statement stands for does not depend on what has been placed. -/
theorem instructions?_congr (hqubits : e.qubits = d.qubits) (haliases : e.aliases = d.aliases)
    (hcolumn : e.column = d.column) :
    e.gateInstructions? = d.gateInstructions? ∧ e.instructions? = d.instructions? := by
  obtain ⟨qubits, aliases, grid, opened, subroutines, column⟩ := d
  obtain ⟨qubits', aliases', grid', opened', subroutines', column'⟩ := e
  cases hqubits
  cases haliases
  cases hcolumn
  exact ⟨rfl, rfl⟩

theorem instructions?_left {indented : Bool} (h : d.left indented = .ok e) :
    e.gateInstructions? = d.gateInstructions? ∧ e.instructions? = d.instructions? := by
  obtain ⟨hqubits, haliases, -, hcolumn⟩ := left_frame (left_eq h)
  exact instructions?_congr hqubits haliases hcolumn

theorem instructions?_eq_some {t : Text} {is : List Instruction} : d.instructions? t = some is ↔
    ∃ keyword operands entry, Statement.instruction? t = some (keyword, operands) ∧
      Catalog.lookup? (Text.lower keyword) = some entry ∧
      entry.arity.accepts operands.length = true ∧
      d.gateInstructions? entry operands = some is := by
  unfold instructions?
  constructor
  · intro h
    obtain ⟨⟨keyword, operands⟩, hinstruction, h⟩ := Option.bind_eq_some_iff.1 h
    obtain ⟨entry, hentry, h⟩ := Option.bind_eq_some_iff.1 h
    obtain ⟨harity, his⟩ := Option.ite_none_right_eq_some.1 h
    exact ⟨keyword, operands, entry, hinstruction, hentry, harity, his⟩
  · rintro ⟨keyword, operands, entry, hinstruction, hentry, harity, his⟩
    refine Option.bind_eq_some_iff.2 ⟨_, hinstruction, ?_⟩
    refine Option.bind_eq_some_iff.2 ⟨entry, hentry, ?_⟩
    exact Option.ite_none_right_eq_some.2 ⟨harity, his⟩

/-- A gate statement is not skipped. -/
theorem execute_of_isGateStatement (hp : Text.isGateStatement p.text = true) :
    d.execute p = d.left p.indented >>= fun e =>
      match Statement.read p.text with
      | .error err =>
        .error (p.error (.malformedStatement (.unreadable err.value)) (p.locate err.span))
      | .ok (.header name repetitions) => (e.openSubroutine p name repetitions).map (·, false)
      | .ok (.instruction keyword operands) => e.instruct p keyword operands := by
  simp only [Text.isGateStatement, Bool.not_eq_true', Bool.or_eq_false_iff, decide_eq_false_iff_not]
    at hp
  obtain ⟨⟨⟨⟨hheader, hdisplay⟩, hmodel⟩, -⟩, -⟩ := hp
  have hleave : d.leaveSubroutine p = d.left p.indented := by
    rw [leaveSubroutine, left, leadingWord, hheader, Bool.false_or]
  unfold execute
  rw [if_neg (show ¬ Text.startsWith (leadingWord p) _ = true from Bool.eq_false_iff.1 hdisplay),
    hleave]
  exact congrArg (d.left p.indented >>= ·) (funext fun e => if_neg hmodel)

/-- A gate statement is no header. -/
theorem read_ne_header (hp : Text.isGateStatement p.text = true) (hmark : '#' ∉ p.text)
    (name : Located Text) (repetitions : Option (Located Float)) :
    Statement.read p.text ≠ .ok (.header name repetitions) := by
  intro hread
  have hheader := Statement.startsWith_of_header hmark hread
  simp only [Text.isGateStatement, hheader, Bool.true_or, Bool.not_true] at hp
  cases hp

/-- The keyword of a gate statement is no directive. -/
theorem keyword_of_isGateStatement (hp : Text.isGateStatement p.text = true) (hmark : '#' ∉ p.text)
    {keyword : Located Text} {operands : List (Located Operand)}
    (hread : Statement.read p.text = .ok (.instruction keyword operands)) :
    Text.lower keyword.value ≠ "qubits".toList ∧ Text.lower keyword.value ≠ Gate.map.name := by
  have hinstruction : Statement.instruction? p.text =
      some (keyword.value, operands.map Located.value) := by
    rw [Statement.instruction?, hread]
  simp only [Text.isGateStatement, Bool.not_eq_true', Bool.or_eq_false_iff, decide_eq_false_iff_not,
    Statement.firstWord_of_instruction? hmark hinstruction] at hp
  exact ⟨hp.1.2, hp.2⟩

/-- **A gate statement** that is not stopped by the end of the open subroutine places its gate. -/
theorem execute_attempts (hp : Text.isGateStatement p.text = true) (hmark : '#' ∉ p.text)
    (he : d.left p.indented = .ok e) :
    ∃ x, d.execute p = x.map (·, true) ∧ e.Attempts p (d.instructions? p.text) x := by
  have hexecute := execute_of_isGateStatement (d := d) hp
  rw [he] at hexecute
  rw [← (instructions?_left he).2]
  unfold instructions? Statement.instruction?
  cases hread : Statement.read p.text with
  | error err =>
    rw [hread] at hexecute
    exact ⟨.error _, hexecute, .refused rfl⟩
  | ok st =>
    rw [hread] at hexecute
    cases st with
    | header name repetitions => exact absurd hread (read_ne_header hp hmark name repetitions)
    | instruction keyword operands =>
      obtain ⟨hqubits, hmap⟩ := keyword_of_isGateStatement hp hmark hread
      obtain ⟨x, hx, hattempts⟩ := instruct_attempts (d := e) (p := p) hqubits hmap operands
      exact ⟨x, hexecute.trans hx, hattempts⟩

/-- **What a gate statement does**: the open subroutine ends if the line is not indented, and the
instructions that the statement stands for are put into free cells. -/
theorem execute_gate {placed : Bool} (hp : Text.isGateStatement p.text = true)
    (hmark : '#' ∉ p.text) : d.execute p = .ok (f, placed) ↔ placed = true ∧ ∃ e is g,
      d.left p.indented = .ok e ∧ d.instructions? p.text = some is ∧ e.grid.Places is g ∧
        f = { e with grid := g } := by
  cases hleft : d.left p.indented with
  | error err =>
    rw [execute_of_isGateStatement hp, hleft]
    simp [bind_eq_ok]
  | ok e =>
    obtain ⟨x, hexecute, hattempts⟩ := execute_attempts hp hmark hleft
    simp only [hexecute, map_eq_ok, hattempts.eq_ok]
    constructor
    · rintro ⟨_, ⟨is, g, his, hg, rfl⟩, ⟨⟩⟩
      exact ⟨rfl, e, is, g, rfl, his, hg, rfl⟩
    · rintro ⟨rfl, _, is, g, ⟨⟩, his, hg, rfl⟩
      exact ⟨_, ⟨is, g, his, hg, rfl⟩, rfl⟩

/-! ## Executing a line of gate statements -/

variable {ps : List Pending} {indented placed : Bool}

/-- Gate statements of one line, after the open subroutine has ended if it had to. -/
theorem executeAll_left (hd : d.left indented = .ok d)
    (hps : ∀ p ∈ ps, Text.isGateStatement p.text = true ∧ '#' ∉ p.text ∧ p.indented = indented) :
    d.executeAll d.column ps = .ok (f, placed) ↔ placed = !ps.isEmpty ∧
      ∃ parts g, ps.mapM (d.instructions? ·.text) = some parts ∧ d.grid.Places parts.flatten g ∧
        f = { d with grid := g } := by
  induction ps generalizing d placed with
  | nil =>
    constructor
    · intro h
      cases h
      exact ⟨rfl, [], _, rfl, .nil, rfl⟩
    · rintro ⟨rfl, parts, g, ⟨⟩, ⟨⟩, rfl⟩
      rfl
  | cons p ps ih =>
    obtain ⟨⟨hgate, hmark, rfl⟩, hps⟩ := List.forall_mem_cons.1 hps
    -- The grid is all that changes from statement to statement.
    have hrest (g : Grid) (more : Bool) : Draft.executeAll d.column { d with grid := g } ps =
        .ok (f, more) ↔ more = !ps.isEmpty ∧ ∃ parts h,
          ps.mapM (d.instructions? ·.text) = some parts ∧ g.Places parts.flatten h ∧
            f = { d with grid := h } :=
      ih (left_left hd g) hps
    show (d.execute p >>= _) = _ ↔ _
    simp only [bind_eq_ok, Prod.exists, execute_gate hgate hmark, hd, List.mapM_cons,
      Option.bind_eq_bind, Option.bind_eq_some_iff]
    constructor
    · rintro ⟨_, _, ⟨rfl, _, is, g, ⟨⟩, his, hg, rfl⟩, f', more, hmore, ⟨⟩⟩
      obtain ⟨-, parts, h, hparts, hh, rfl⟩ := (hrest g more).1 hmore
      exact ⟨by simp, is :: parts, h, ⟨is, his, parts, hparts, rfl⟩,
        Grid.places_append.2 ⟨g, hg, hh⟩, rfl⟩
    · rintro ⟨rfl, _, h, ⟨is, his, parts, hparts, ⟨⟩⟩, hh, rfl⟩
      obtain ⟨g, hg, hh⟩ := Grid.places_append.1 hh
      refine ⟨_, _, ⟨rfl, d, is, g, rfl, his, hg, rfl⟩, _, _,
        (hrest g _).2 ⟨rfl, parts, h, hparts, hh, rfl⟩, by simp⟩

/-- **What the gate statements of a line do together**: the open subroutine ends if the line is not
indented, and the instructions that all of them stand for are put into free cells. -/
theorem executeAll_gates (hne : ps ≠ [])
    (hps : ∀ p ∈ ps, Text.isGateStatement p.text = true ∧ '#' ∉ p.text ∧ p.indented = indented) :
    d.executeAll d.column ps = .ok (f, placed) ↔ placed = true ∧
      ∃ e parts g, d.left indented = .ok e ∧ ps.mapM (d.instructions? ·.text) = some parts ∧
        e.grid.Places parts.flatten g ∧ f = { e with grid := g } := by
  cases ps with
  | nil => exact absurd rfl hne
  | cons p ps =>
    obtain ⟨⟨hgate, hmark, rfl⟩, hps⟩ := List.forall_mem_cons.1 hps
    have hrest {e : Draft} (he : d.left p.indented = .ok e) (g : Grid) (more : Bool) :
        Draft.executeAll e.column { e with grid := g } ps = .ok (f, more) ↔ more = !ps.isEmpty ∧
          ∃ parts h, ps.mapM (e.instructions? ·.text) = some parts ∧ g.Places parts.flatten h ∧
            f = { e with grid := h } :=
      executeAll_left (left_left he g) hps
    show (d.execute p >>= _) = _ ↔ _
    simp only [bind_eq_ok, Prod.exists, execute_gate hgate hmark, List.mapM_cons,
      Option.bind_eq_bind, Option.bind_eq_some_iff]
    constructor
    · rintro ⟨_, _, ⟨rfl, e, is, g, he, his, hg, rfl⟩, f', more, hmore, ⟨⟩⟩
      rw [← (left_frame (left_eq he)).2.2.2] at hmore
      obtain ⟨-, parts, h, hparts, hh, rfl⟩ := (hrest he g more).1 hmore
      have hparts : ps.mapM (e.instructions? ·.text) = some parts := hparts
      rw [(instructions?_left he).2] at hparts
      exact ⟨by simp, e, is :: parts, h, he, ⟨is, his, parts, hparts, rfl⟩,
        Grid.places_append.2 ⟨g, hg, hh⟩, rfl⟩
    · rintro ⟨rfl, e, _, h, he, ⟨is, his, parts, hparts, ⟨⟩⟩, hh, rfl⟩
      obtain ⟨g, hg, hh⟩ := Grid.places_append.1 hh
      rw [← (instructions?_left he).2] at hparts
      refine ⟨_, _, ⟨rfl, e, is, g, he, his, hg, rfl⟩, _, !ps.isEmpty, ?_, rfl⟩
      rw [← (left_frame (left_eq he)).2.2.2]
      exact (hrest he g _).2 ⟨rfl, parts, h, hparts, hh, rfl⟩

end Draft

end QuantumDiagram
