import QuantumDiagram.Proofs.Program.OtherStatement

/-!
# Statements of a line that clash

`Draft.Intends` says what the statements of a line stand for when nobody looks whether cells are
free. In a column that holds nothing else the line is refused just for the first clash of these
instructions (`Draft.findsTaken_executeAll`). Two parts of a parallel line may clash, or two
operands of one `measure` (`Draft.Intends.not_pairwise_flatten`).
-/

namespace QuantumDiagram

open Instruction (Apart)

/-- An outcome that is an error, namely that the site is taken. -/
def FindsTaken {α : Type} (x : Except ParseError α) (s : Site) : Prop :=
  ∃ err, x = .error err ∧ err.fault.takenSite? = some s

section FindsTaken

variable {α β : Type} {s : Site}

theorem findsTaken_error {err : ParseError} :
    FindsTaken (.error err : Except ParseError α) s ↔ err.fault.takenSite? = some s := by
  simp [FindsTaken]

theorem not_findsTaken_ok {a : α} : ¬ FindsTaken (.ok a) s := by
  simp [FindsTaken]

theorem findsTaken_bind {x : Except ParseError α} {f : α → Except ParseError β} :
    FindsTaken (x >>= f) s ↔ FindsTaken x s ∨ ∃ a, x = .ok a ∧ FindsTaken (f a) s := by
  cases x with
  | error err =>
    show FindsTaken (.error err) s ↔ _
    simp [findsTaken_error]
  | ok a =>
    show FindsTaken (f a) s ↔ _
    simp [not_findsTaken_ok]

theorem findsTaken_map {x : Except ParseError α} {f : α → β} :
    FindsTaken (x.map f) s ↔ FindsTaken x s := by
  simp [FindsTaken, map_eq_error]

end FindsTaken

namespace Draft

variable {d e f : Draft} {p : Pending} {ps : List Pending} {is taken : List Instruction}
  {parts : List (List Instruction)} {c : Channel} {k : Nat} {t : Text}

/-! ## The instructions of a statement -/

theorem mapM_qubitIndex?_eq_some {channels : List Channel} {named : List Nat} :
    channels.mapM qubitIndex? = some named ↔ channels = named.map .qubit := by
  have hindex (c : Channel) (n : Nat) : qubitIndex? c = some n ↔ c = .qubit n := by
    cases c <;> simp [qubitIndex?]
  simp only [mapM_eq_some_iff, hindex]
  rw [← List.forall₂_map_right_iff (R := Eq), List.forall₂_eq_eq_eq]

/-- A gate stands for one instruction, and `measure` for a measurement of each qubit that is named,
or of all qubits. -/
theorem gateInstructions?_cases {entry : Catalog.Entry} {operands : List Operand}
    (h : d.gateInstructions? entry operands = some is) :
    (entry.gate ≠ .measure ∧ ∃ i, is = [i] ∧ i.column = d.column) ∨
      (entry.gate = .measure ∧ ∃ named : List Nat,
        operands.mapM d.operandChannel? = some (named.map .qubit) ∧
          is = (if named.isEmpty then List.range d.qubits else named).map
            (measurement d.column)) := by
  obtain ⟨⟨angle, rest⟩, hangle, h⟩ := Option.bind_eq_some_iff.1 h
  obtain ⟨channels, hchannels, h⟩ := Option.bind_eq_some_iff.1 h
  by_cases hgate : entry.gate = .measure
  · rw [if_pos hgate] at h
    obtain ⟨named, hnamed, h⟩ := Option.bind_eq_some_iff.1 h
    obtain rfl := mapM_qubitIndex?_eq_some.1 hnamed
    cases h
    rw [hgate] at hangle
    cases hangle
    exact .inr ⟨hgate, named, hchannels, by rw [List.isEmpty_map]⟩
  · rw [if_neg hgate] at h
    cases h
    exact .inl ⟨hgate, _, rfl, rfl⟩

/-- Instructions are put into the current column. -/
theorem column_of_mem_instructions? (h : d.instructions? t = some is) :
    ∀ i ∈ is, i.column = d.column := by
  obtain ⟨_, _, entry, -, -, -, hgate⟩ := instructions?_eq_some.1 h
  obtain ⟨-, i, rfl, hi⟩ | ⟨-, named, -, rfl⟩ := gateInstructions?_cases hgate
  · intro j hj
    rwa [List.mem_singleton.1 hj]
  · intro j hj
    obtain ⟨index, -, rfl⟩ := List.mem_map.1 hj
    rfl

/-- Of all keywords, only `measure` is a measurement. -/
theorem lookup?_measure {keyword : Text} {entry : Catalog.Entry}
    (h : Catalog.lookup? keyword = some entry) :
    entry.gate = .measure ↔ keyword = Gate.measure.name := by
  have hentries : ∀ entry ∈ Catalog.entries,
      entry.gate = .measure ↔ entry.keyword = Gate.measure.name := by decide
  have hkeyword : entry.keyword = keyword := by simpa using List.find?_some h
  rw [hentries entry (List.mem_of_find?_eq_some h), hkeyword]

/-- A measurement takes the cells of its qubit and of the partner bit, and of no other qubit. -/
theorem apart_measurement {a b : Nat} : (measurement k a).Apart (measurement k b) ↔ a ≠ b := by
  simp [Apart, measurement, ChannelSet.mem_ofList, Channel.partner]

theorem pairwise_measurement {targets : List Nat} :
    (targets.map (measurement k)).Pairwise Apart ↔ targets.Nodup := by
  simp only [List.pairwise_map, apart_measurement, List.Nodup]

theorem nodup_map_qubit {named : List Nat} : (named.map Channel.qubit).Nodup ↔ named.Nodup := by
  simp [List.Nodup, List.pairwise_map]

/-- The statement is a measurement, and two of its operands stand for the same channel. -/
def MeasuresTwice (d : Draft) (t : Text) : Prop :=
  ∃ keyword operands channels, Statement.instruction? t = some (keyword, operands) ∧
    Text.lower keyword = Gate.measure.name ∧
      operands.mapM d.operandChannel? = some channels ∧ ¬ channels.Nodup

/-- The instructions of one statement clash just if it measures a channel twice. -/
theorem not_pairwise_instructions? (h : d.instructions? t = some is) :
    ¬ is.Pairwise Apart ↔ d.MeasuresTwice t := by
  obtain ⟨keyword, operands, entry, hinstruction, hlookup, -, hgate⟩ := instructions?_eq_some.1 h
  have hmeasures : d.MeasuresTwice t ↔ Text.lower keyword = Gate.measure.name ∧
      ∃ channels, operands.mapM d.operandChannel? = some channels ∧ ¬ channels.Nodup := by
    simp [MeasuresTwice, hinstruction]
  rw [hmeasures, ← lookup?_measure hlookup]
  obtain ⟨hother, i, rfl, -⟩ | ⟨hmeasure, named, hnamed, rfl⟩ := gateInstructions?_cases hgate
  · simp [hother]
  · simp only [hmeasure, hnamed, pairwise_measurement, true_and, Option.some.injEq, exists_eq_left',
      nodup_map_qubit]
    cases named <;> simp [List.nodup_range]

theorem leadingWord_of_measuresTwice (hmark : '#' ∉ p.text) (h : d.MeasuresTwice p.text) :
    leadingWord p = Gate.measure.name := by
  obtain ⟨keyword, operands, -, hinstruction, hkeyword, -⟩ := h
  rw [leadingWord, Statement.firstWord_of_instruction? hmark hinstruction, hkeyword]

theorem isGateStatement_of_measuresTwice (hmark : '#' ∉ p.text) (h : d.MeasuresTwice p.text) :
    Text.isGateStatement p.text = true := by
  have hword : Text.lower (Text.firstWord p.text) = _ := leadingWord_of_measuresTwice hmark h
  rw [Text.isGateStatement, hword]
  decide

/-! ## What the statements of a line stand for -/

/-- `d.StandsFor p is e`: executed in the draft `d` without looking whether cells are free, the
statement `p` puts the instructions `is` into the grid and leads to `e`. -/
inductive StandsFor (d : Draft) (p : Pending) : List Instruction → Draft → Prop
  | gate {e : Draft} {is : List Instruction} (gate : Text.isGateStatement p.text = true)
      (left : d.left p.indented = .ok e) (instructions : d.instructions? p.text = some is) :
      StandsFor d p is { e with grid := is.foldl Grid.place e.grid }
  | other {e : Draft} {placed : Bool} (other : Text.isGateStatement p.text = false)
      (executed : d.execute p = .ok (e, placed)) : StandsFor d p [] e

/-- `d.Intends ps parts e`: executed in the draft `d` without looking whether cells are free, the
statements `ps` stand for the instructions `parts`, a list for each of them, and lead to `e`. -/
inductive Intends : Draft → List Pending → List (List Instruction) → Draft → Prop
  | done {d : Draft} : Intends d [] [] d
  | next {d e f : Draft} {p : Pending} {ps : List Pending} {is : List Instruction}
      {parts : List (List Instruction)} (first : d.StandsFor p is e)
      (rest : Intends e ps parts f) : Intends d (p :: ps) (is :: parts) f

theorem intends_nil : d.Intends [] parts f ↔ parts = [] ∧ f = d := by
  constructor
  · rintro ⟨⟩
    exact ⟨rfl, rfl⟩
  · rintro ⟨rfl, rfl⟩
    exact .done

theorem intends_cons : d.Intends (p :: ps) parts f ↔
    ∃ is e later, parts = is :: later ∧ d.StandsFor p is e ∧ e.Intends ps later f := by
  constructor
  · rintro ⟨⟩
    exact ⟨_, _, _, rfl, ‹_›, ‹_›⟩
  · rintro ⟨is, e, later, rfl, hfirst, hrest⟩
    exact .next hfirst hrest

theorem StandsFor.unique {js : List Instruction} (h : d.StandsFor p is e)
    (h' : d.StandsFor p js f) : is = js ∧ e = f := by
  cases h with
  | gate hgate hleft his =>
    cases h' with
    | gate _ hleft' his' =>
      obtain rfl := Except.ok.inj (hleft.symm.trans hleft')
      obtain rfl := Option.some.inj (his.symm.trans his')
      exact ⟨rfl, rfl⟩
    | other hother _ =>
      rw [hgate] at hother
      cases hother
  | other hother hexecuted =>
    cases h' with
    | gate hgate _ _ =>
      rw [hother] at hgate
      cases hgate
    | other _ hexecuted' =>
      cases hexecuted.symm.trans hexecuted'
      exact ⟨rfl, rfl⟩

theorem StandsFor.column (h : d.StandsFor p is f) : f.column = d.column := by
  cases h with
  | gate _ hleft _ => exact (left_frame (left_eq hleft)).2.2.2
  | other _ hexecuted => exact execute_column hexecuted

theorem StandsFor.holds (h : d.StandsFor p is f) (hmark : '#' ∉ p.text)
    (hd : d.grid.Holds d.column taken) : f.grid.Holds f.column (taken ++ is) := by
  have hcolumn := h.column
  cases h with
  | gate _ hleft his =>
    obtain ⟨-, -, hgrid, -⟩ := left_frame (left_eq hleft)
    rw [hcolumn]
    have hplaced := hd.foldl_place (column_of_mem_instructions? his)
    rwa [← hgrid] at hplaced
  | @other _ placed hother hexecuted =>
    have hspares := execute_spares (d := d) hother hmark
    rw [hexecuted] at hspares
    cases hspares
    obtain ⟨e, hclosed, heffect⟩ := execute_ok hexecuted
    rw [hcolumn, List.append_nil, heffect.grid_eq, (left_frame hclosed).2.2.1]
    exact hd

/-- The instructions of a statement clash just if it measures a channel twice. -/
theorem StandsFor.not_pairwise (h : d.StandsFor p is f) (hmark : '#' ∉ p.text) :
    ¬ is.Pairwise Apart ↔ d.MeasuresTwice p.text := by
  cases h with
  | gate _ _ his => exact not_pairwise_instructions? his
  | other hother _ =>
    refine iff_of_false (fun h => h .nil) fun h => ?_
    rw [isGateStatement_of_measuresTwice hmark h] at hother
    cases hother

theorem Intends.isPrefix_parts {first : List Pending} {earlier : List (List Instruction)}
    (h : d.Intends first earlier e) (h' : d.Intends ps parts f) (hfirst : first <+: ps) :
    earlier <+: parts := by
  induction h generalizing ps parts with
  | done => exact List.nil_prefix
  | next hp _ ih =>
    obtain ⟨more, rfl⟩ := hfirst
    obtain ⟨is, e, later, rfl, hp', hrest⟩ := intends_cons.1 h'
    obtain ⟨rfl, rfl⟩ := hp.unique hp'
    exact List.cons_prefix_cons.2 ⟨rfl, ih hrest (List.prefix_append _ _)⟩

/-! ## Executing one statement -/

/-- A statement that stands for nothing is refused for another reason than a site that is taken. -/
theorem execute_refused (hmark : '#' ∉ p.text) (h : ∀ is e, ¬ d.StandsFor p is e) :
    ∃ err, d.execute p = .error err ∧ err.fault.takenSite? = none := by
  cases hp : Text.isGateStatement p.text with
  | true =>
    cases hleft : d.left p.indented with
    | error err =>
      refine ⟨err, ?_, left_takenSite? hleft⟩
      rw [execute_of_isGateStatement hp, hleft]
      rfl
    | ok e =>
      obtain ⟨x, hexecute, hattempts⟩ := execute_attempts hp hmark hleft
      cases his : d.instructions? p.text with
      | none =>
        rw [his] at hattempts
        cases hattempts with
        | refused hother => exact ⟨_, hexecute, hother⟩
      | some is => exact absurd (.gate hp hleft his) (h _ _)
  | false =>
    have hspares := execute_spares (d := d) hp hmark
    generalize hexecute : d.execute p = x at hspares
    cases hspares with
    | ok f => exact absurd (.other hp hexecute) (h _ _)
    | error hother => exact ⟨_, rfl, hother⟩

/-- What one statement does in a column that holds the instructions `taken`: it is refused if its
instructions clash, and else they are put into the column. -/
theorem StandsFor.execute (h : d.StandsFor p is f) (hmark : '#' ∉ p.text)
    (hd : d.grid.Holds d.column taken) (htaken : taken.Pairwise Apart) :
    (∀ c k, FindsTaken (d.execute p) ⟨c, k⟩ ↔ k = d.column ∧ FirstClash (taken ++ is) c) ∧
      ((∃ placed, d.execute p = .ok (f, placed)) ↔ (taken ++ is).Pairwise Apart) := by
  cases h with
  | @gate e _ hp hleft his =>
    obtain ⟨-, -, hgrid, hcolumn⟩ := left_frame (left_eq hleft)
    have hholds : e.grid.Holds e.column taken := by rwa [hgrid, hcolumn]
    have hcolumns : ∀ i ∈ is, i.column = e.column := hcolumn ▸ column_of_mem_instructions? his
    obtain ⟨x, hexecute, hattempts⟩ := execute_attempts hp hmark hleft
    rw [his] at hattempts
    cases hattempts
    rw [hexecute]
    constructor
    · intro c k
      rw [findsTaken_map, FindsTaken]
      simp only [occupyAll_eq_error hholds hcolumns htaken, siteTaken, hcolumn]
      constructor
      · rintro ⟨_, ⟨c', hclash, rfl⟩, ⟨⟩⟩
        exact ⟨rfl, hclash⟩
      · rintro ⟨rfl, hclash⟩
        exact ⟨_, ⟨c, hclash, rfl⟩, rfl⟩
    · simp [map_eq_ok, occupyAll_eq_ok_of_holds hholds hcolumns htaken]
  | @other _ placed hother hexecuted =>
    rw [List.append_nil]
    refine ⟨fun c k => iff_of_false ?_ fun h => not_firstClash htaken h.2,
      iff_of_true ⟨placed, hexecuted⟩ htaken⟩
    rw [hexecuted]
    exact not_findsTaken_ok

/-- A statement that is executed stands for instructions that keep apart from those before. -/
theorem exists_standsFor {placed : Bool} (h : d.execute p = .ok (f, placed)) (hmark : '#' ∉ p.text)
    (hd : d.grid.Holds d.column taken) (htaken : taken.Pairwise Apart) :
    ∃ is, d.StandsFor p is f ∧ (taken ++ is).Pairwise Apart := by
  by_cases hstands : ∃ is e, d.StandsFor p is e
  · obtain ⟨is, e, he⟩ := hstands
    obtain ⟨hfinds, hplaced⟩ := he.execute hmark hd htaken
    rw [h] at hfinds hplaced
    by_cases hapart : (taken ++ is).Pairwise Apart
    · obtain ⟨_, ⟨⟩⟩ := hplaced.2 hapart
      exact ⟨is, he, hapart⟩
    · -- A clash would have been an error.
      obtain ⟨c, hclash⟩ := exists_firstClash_iff.2 hapart
      exact absurd ((hfinds c _).2 ⟨rfl, hclash⟩) not_findsTaken_ok
  · obtain ⟨err, herr, -⟩ := execute_refused hmark fun is e he => hstands ⟨is, e, he⟩
    rw [h] at herr
    cases herr

/-! ## Executing a line -/

/-- In a column that holds the instructions `taken`, the statements stand for instructions of which
the first that clashes does so at `c`; what stands behind the clash does not matter. -/
def Clashes (d : Draft) (taken : List Instruction) (ps : List Pending) (c : Channel) : Prop :=
  ∃ first parts e, first <+: ps ∧ d.Intends first parts e ∧ FirstClash (taken ++ parts.flatten) c

theorem clashes_nil (htaken : taken.Pairwise Apart) : ¬ d.Clashes taken [] c := by
  rintro ⟨first, parts, e, hfirst, hintends, hclash⟩
  obtain rfl := List.prefix_nil.1 hfirst
  obtain ⟨rfl, -⟩ := intends_nil.1 hintends
  rw [List.flatten_nil, List.append_nil] at hclash
  exact not_firstClash htaken hclash

theorem clashes_of_not_pairwise (htaken : ¬ taken.Pairwise Apart) :
    d.Clashes taken ps c ↔ FirstClash taken c := by
  constructor
  · rintro ⟨first, parts, e, -, -, hclash⟩
    exact (firstClash_append htaken).1 hclash
  · intro h
    exact ⟨[], [], d, List.nil_prefix, .done, by rwa [List.flatten_nil, List.append_nil]⟩

theorem clashes_cons (htaken : taken.Pairwise Apart) : d.Clashes taken (p :: ps) c ↔
    ∃ is e, d.StandsFor p is e ∧ e.Clashes (taken ++ is) ps c := by
  constructor
  · rintro ⟨first, parts, f, hfirst, hintends, hclash⟩
    rcases List.prefix_cons_iff.1 hfirst with rfl | ⟨rest, rfl, hrest⟩
    · exact absurd ⟨[], _, _, List.nil_prefix, hintends, hclash⟩ (clashes_nil htaken)
    · obtain ⟨is, e, later, rfl, hp, hlater⟩ := intends_cons.1 hintends
      rw [List.flatten_cons, ← List.append_assoc] at hclash
      exact ⟨is, e, hp, rest, later, f, hrest, hlater, hclash⟩
  · rintro ⟨is, e, hp, first, parts, f, hfirst, hintends, hclash⟩
    refine ⟨p :: first, is :: parts, f, List.cons_prefix_cons.2 ⟨rfl, hfirst⟩,
      .next hp hintends, ?_⟩
    rwa [List.flatten_cons, ← List.append_assoc]

/-- A statement alone clashes only with itself. -/
theorem measuresTwice_of_clashes (hmark : '#' ∉ p.text) (h : d.Clashes [] [p] c) :
    d.MeasuresTwice p.text := by
  obtain ⟨is, e, he, hclash⟩ := (clashes_cons .nil).1 h
  exact (he.not_pairwise hmark).1 fun hapart => clashes_nil hapart hclash

/-- Where all statements stand for something, the first clash is that of all the instructions. -/
theorem clashes_iff_of_intends (h : d.Intends ps parts f) :
    d.Clashes taken ps c ↔ FirstClash (taken ++ parts.flatten) c := by
  constructor
  · rintro ⟨first, earlier, e, hfirst, hintends, hclash⟩
    obtain ⟨later, rfl⟩ := hintends.isPrefix_parts h hfirst
    rw [List.flatten_append, ← List.append_assoc]
    exact (firstClash_append (exists_firstClash_iff.1 ⟨c, hclash⟩)).2 hclash
  · intro hclash
    exact ⟨ps, parts, f, List.prefix_rfl, h, hclash⟩

theorem findsTaken_executeAll_cons {s : Site} :
    FindsTaken (d.executeAll d.column (p :: ps)) s ↔ FindsTaken (d.execute p) s ∨
      ∃ e placed, d.execute p = .ok (e, placed) ∧ FindsTaken (e.executeAll e.column ps) s := by
  rw [executeAll, findsTaken_bind]
  refine or_congr Iff.rfl ⟨?_, ?_⟩
  · rintro ⟨⟨e, placed⟩, he, h⟩
    refine ⟨e, placed, he, ?_⟩
    rw [execute_column he]
    rcases findsTaken_bind.1 h with h | ⟨_, -, h⟩
    · exact h
    · exact absurd h not_findsTaken_ok
  · rintro ⟨e, placed, he, h⟩
    rw [execute_column he] at h
    exact ⟨(e, placed), he, findsTaken_bind.2 (.inl h)⟩

/-- **A line is refused for its first clash**, in a column that holds the instructions `taken`. -/
theorem findsTaken_executeAll (hmarks : ∀ p ∈ ps, '#' ∉ p.text)
    (hd : d.grid.Holds d.column taken) (htaken : taken.Pairwise Apart) :
    FindsTaken (d.executeAll d.column ps) ⟨c, k⟩ ↔ k = d.column ∧ d.Clashes taken ps c := by
  -- The draft and what its column holds change from statement to statement.
  induction ps generalizing d taken with
  | nil => exact iff_of_false not_findsTaken_ok fun h => clashes_nil htaken h.2
  | cons p ps ih =>
    obtain ⟨hmark, hmarks⟩ := List.forall_mem_cons.1 hmarks
    rw [findsTaken_executeAll_cons, clashes_cons htaken]
    constructor
    · rintro (htakes | ⟨e, placed, he, htakes⟩)
      · by_cases hstands : ∃ is e, d.StandsFor p is e
        · obtain ⟨is, e, he⟩ := hstands
          obtain ⟨hk, hclash⟩ := ((he.execute hmark hd htaken).1 c k).1 htakes
          have hnot := exists_firstClash_iff.1 ⟨c, hclash⟩
          exact ⟨hk, is, e, he, (clashes_of_not_pairwise hnot).2 hclash⟩
        · obtain ⟨err, herr, hother⟩ := execute_refused hmark fun is e he => hstands ⟨is, e, he⟩
          rw [herr, findsTaken_error, hother] at htakes
          cases htakes
      · obtain ⟨is, hstands, hapart⟩ := exists_standsFor he hmark hd htaken
        obtain ⟨hk, hclash⟩ := (ih hmarks (hstands.holds hmark hd) hapart).1 htakes
        exact ⟨hstands.column ▸ hk, is, e, hstands, hclash⟩
    · rintro ⟨rfl, is, e, hstands, hclash⟩
      obtain ⟨hfinds, hplaced⟩ := hstands.execute hmark hd htaken
      by_cases hapart : (taken ++ is).Pairwise Apart
      · obtain ⟨placed, he⟩ := hplaced.2 hapart
        refine .inr ⟨e, placed, he, (ih hmarks (hstands.holds hmark hd) hapart).2 ⟨?_, hclash⟩⟩
        exact hstands.column.symm
      · exact .inl ((hfinds c _).2 ⟨rfl, (clashes_of_not_pairwise hapart).1 hclash⟩)

/-! ## Which statements of a line clash -/

/-- One of the statements, executed after those before it, measures a channel twice. -/
def SomeMeasuresTwice (d : Draft) (ps : List Pending) : Prop :=
  ∃ before p earlier e, before ++ [p] <+: ps ∧ d.Intends before earlier e ∧ e.MeasuresTwice p.text

theorem someMeasuresTwice_cons : d.SomeMeasuresTwice (p :: ps) ↔ d.MeasuresTwice p.text ∨
    ∃ is e, d.StandsFor p is e ∧ e.SomeMeasuresTwice ps := by
  constructor
  · rintro ⟨before, q, earlier, e, hbegin, hintends, hmeasures⟩
    cases before with
    | nil =>
      obtain ⟨rfl, -⟩ := List.cons_prefix_cons.1 hbegin
      obtain ⟨-, rfl⟩ := intends_nil.1 hintends
      exact .inl hmeasures
    | cons p' before =>
      obtain ⟨rfl, hbehind⟩ := List.cons_prefix_cons.1 hbegin
      obtain ⟨is, f, later, -, hfirst, hrest⟩ := intends_cons.1 hintends
      exact .inr ⟨is, f, hfirst, before, q, later, e, hbehind, hrest, hmeasures⟩
  · rintro (hmeasures | ⟨is, f, hfirst, before, q, later, e, hbegin, hrest, hmeasures⟩)
    · exact ⟨[], p, [], d, by simp, .done, hmeasures⟩
    · exact ⟨p :: before, q, _, e, List.cons_prefix_cons.2 ⟨rfl, hbegin⟩, .next hfirst hrest,
        hmeasures⟩

theorem Intends.exists_not_pairwise (h : d.Intends ps parts f) (hmarks : ∀ p ∈ ps, '#' ∉ p.text) :
    (¬ ∀ is ∈ parts, is.Pairwise Apart) ↔ d.SomeMeasuresTwice ps := by
  induction h with
  | done =>
    refine iff_of_false (by simp) ?_
    rintro ⟨before, p, -, -, hbegin, -⟩
    simp at hbegin
  | next hfirst _ ih =>
    obtain ⟨hmark, hmarks⟩ := List.forall_mem_cons.1 hmarks
    rw [List.forall_mem_cons, not_and_or, hfirst.not_pairwise hmark, ih hmarks,
      someMeasuresTwice_cons]
    refine or_congr Iff.rfl ⟨fun h => ⟨_, _, hfirst, h⟩, ?_⟩
    rintro ⟨is, e, he, h⟩
    obtain ⟨-, rfl⟩ := hfirst.unique he
    exact h

/-- **Instructions of a line clash** just if those of two parts do, or if a part measures a channel
twice. -/
theorem Intends.not_pairwise_flatten (h : d.Intends ps parts f) (hmarks : ∀ p ∈ ps, '#' ∉ p.text) :
    ¬ parts.flatten.Pairwise Apart ↔
      ¬ parts.Pairwise (fun is js => ∀ i ∈ is, ∀ j ∈ js, i.Apart j) ∨ d.SomeMeasuresTwice ps := by
  rw [List.pairwise_flatten, not_and_or, or_comm, h.exists_not_pairwise hmarks]

end Draft

end QuantumDiagram
