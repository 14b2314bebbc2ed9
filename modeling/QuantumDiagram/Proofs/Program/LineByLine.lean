import QuantumDiagram.Proofs.Program.Invariant

/-!
# Reading a program line by line

`Circuit.ofLines` reads a program without pending statements and without a count of parts: each line
is cut into its statements, these are executed from left to right in the column of the line, and the
next line goes into the next column if one of them placed a gate. `Circuit.ofProgram_eq_ofLines`
says that a run gives the same circuit, or the same error, for every text.
-/

namespace QuantumDiagram

/-- The statements of a line: the parts of a parallel line, else the line itself unless it is
blank. -/
def Pending.statements (p : Pending) : Except ParseError (List Pending) :=
  if p.isParallel then p.parts
  else .ok (if Text.isBlank p.text then [] else [p])

namespace Draft

/-- Executes statements from left to right, all of them in one column. The Boolean tells whether one
of them placed a gate. -/
def executeAll (column : Nat) (d : Draft) : List Pending → Except ParseError (Draft × Bool)
  | [] => .ok (d, false)
  | p :: rest => do
    let (d, placed) ← { d with column }.execute p
    let (d, more) ← d.executeAll column rest
    .ok (d, placed || more)

/-- Executes the statements of a line and moves on to the column of the next line. -/
def executeLine (d : Draft) (l : Line) : Except ParseError Draft := do
  let statements ← (Pending.ofLine l).statements
  let (e, placed) ← d.executeAll d.column statements
  .ok { e with column := if placed then d.column + 1 else d.column }

end Draft

/-- The circuit that a program describes, or the first error in it, read line by line. -/
def Circuit.ofLines (source : Text) : Except ParseError Circuit := do
  let (qubits, lines) ← Declaration.find (Text.byteLength source) (Line.ofSource source)
  let d ← lines.foldlM Draft.executeLine (Draft.initial qubits)
  d.finish

/-! ## Statements of a line -/

namespace Pending

theorem isBlank_of_isParallel {p : Pending} (h : p.isParallel = true) :
    Text.isBlank p.text = false := by
  have hbar : Text.isBlankChar '|' = false := by decide
  have hopen : Text.isBlankChar '\x7b' = false := by decide
  have hne (c : Char) (hc : c ∈ p.text) (hcb : Text.isBlankChar c = false) :
      Text.isBlank p.text = false :=
    List.all_eq_false.2 ⟨c, hc, by simp [hcb]⟩
  simp only [isParallel, Bool.or_eq_true, List.contains_iff_mem, decide_eq_true_eq] at h
  rcases h with h | h
  · exact hne '|' h hbar
  · exact hne '\x7b' ((List.dropWhile_sublist _).subset (List.mem_of_mem_head? h)) hopen

theorem isBlank_of_mem_parts {p q : Pending} {ps : List Pending} (h : p.parts = .ok ps)
    (hq : q ∈ ps) : Text.isBlank q.text = false := by
  unfold parts at h
  split at h
  · cases h
  · cases h
    obtain ⟨s, hs, rfl⟩ := List.mem_map.1 hq
    show Text.isBlank s.text = false
    simpa using (List.mem_filter.1 hs).2

end Pending

theorem Draft.executeAll_column {c : Nat} {ps : List Pending} {d e : Draft} {placed : Bool}
    (hd : d.column = c) (h : d.executeAll c ps = .ok (e, placed)) : e.column = c := by
  induction ps generalizing d placed with
  | nil =>
    cases h
    exact hd
  | cons p ps ih =>
    obtain ⟨⟨f, first⟩, hf, h⟩ := bind_eq_ok.1 h
    obtain ⟨⟨g, more⟩, hg, h⟩ := bind_eq_ok.1 h
    cases h
    exact ih (execute_column hf) hg

namespace Draft

theorem advance_of_column {d e : Draft} {placed : Bool} (h : e.column = d.column) :
    e.advance placed = { e with column := if placed then d.column + 1 else d.column } := by
  rw [advance, h]

/-! ## Execution of a line -/

theorem executeLine_parts {l : Line} {parts : List Pending}
    (hpar : (Pending.ofLine l).isParallel = true) (hparts : (Pending.ofLine l).parts = .ok parts)
    (d : Draft) :
    d.executeLine l = (d.executeAll d.column parts).map fun (e, placed) => e.advance placed := by
  rw [executeLine, Pending.statements, if_pos hpar, hparts]
  show (d.executeAll d.column parts >>= _) = _
  cases hall : d.executeAll d.column parts with
  | error e => rfl
  | ok r =>
    obtain ⟨e, placed⟩ := r
    show _ = Except.ok (e.advance placed)
    rw [advance_of_column (executeAll_column rfl hall)]
    rfl

theorem executeLine_blank {l : Line} (hpar : (Pending.ofLine l).isParallel = false)
    (hblank : Text.isBlank (Pending.ofLine l).text = true) (d : Draft) :
    d.executeLine l = .ok d := by
  rw [executeLine, Pending.statements, hpar, hblank]
  rfl

theorem executeLine_plain {l : Line} (hpar : (Pending.ofLine l).isParallel = false)
    (hblank : Text.isBlank (Pending.ofLine l).text = false) (d : Draft) :
    d.executeLine l = (d.execute (Pending.ofLine l)).map fun (e, placed) => e.advance placed := by
  rw [executeLine, Pending.statements, hpar, hblank]
  show (d.executeAll d.column [Pending.ofLine l] >>= _) = _
  rw [executeAll]
  cases hexec : d.execute (Pending.ofLine l) with
  | error e => rfl
  | ok r =>
    obtain ⟨e, placed⟩ := r
    show _ = Except.ok (e.advance placed)
    rw [advance_of_column (execute_column hexec)]
    cases placed <;> rfl

end Draft

/-! ## Steps of the run -/

namespace State

theorem run_nil (s : State) : s.run [] = .ok s := by rw [run]

theorem run_cons (s : State) (p : Pending) (rest : List Pending) :
    s.run (p :: rest) = s.process p >>= fun (t, parts) => t.run (parts ++ rest) := by
  rw [run]
  split <;> simp_all [bind, Except.bind]

theorem process_of_isBlank {s : State} {p : Pending} (h : Text.isBlank p.text = true) :
    s.process p = .ok (s, []) := by
  rw [process, if_pos h]

theorem process_of_isParallel {s : State} {p : Pending} (h : p.isParallel = true) :
    s.process p = p.parts.map fun parts => (⟨s.draft, parts.length, false⟩, parts) := by
  rw [process, if_neg (by simp [Pending.isBlank_of_isParallel h]), if_pos h]

theorem process_of_plain {s : State} {p : Pending} (hb : Text.isBlank p.text = false)
    (hp : p.isParallel = false) :
    s.process p = (s.draft.execute p).map fun (draft, placed) =>
      (State.complete { s with draft } placed, []) := by
  rw [process, if_neg (by simp [hb]), if_neg (by simp [hp])]

theorem complete_plain (d : Draft) (used placed : Bool) :
    complete ⟨d, 0, used⟩ placed = ⟨d.advance placed, 0, used⟩ := rfl

theorem complete_last (d : Draft) (used placed : Bool) :
    complete ⟨d, 1, used⟩ placed = ⟨d.advance (used || placed), 0, used || placed⟩ := rfl

theorem complete_more (d : Draft) (n : Nat) (used placed : Bool) :
    complete ⟨d, n + 2, used⟩ placed = ⟨d, n + 1, used || placed⟩ := rfl

/-- **The parts of a parallel line share its column**: the count of parts runs down to zero with
them, and only then the column ends. -/
theorem run_parts {parts : List Pending} (hne : parts ≠ [])
    (hparts : ∀ q ∈ parts, Text.isBlank q.text = false ∧ q.isParallel = false) (d : Draft)
    (used : Bool) (rest : List Pending) :
    run ⟨d, parts.length, used⟩ (parts ++ rest) =
      d.executeAll d.column parts >>= fun (e, placed) =>
        run ⟨e.advance (used || placed), 0, used || placed⟩ rest := by
  -- The draft changes from part to part and `used` collects whether one of them has placed a gate,
  -- but the column stays.
  induction parts generalizing d used with
  | nil => exact absurd rfl hne
  | cons p parts ih =>
    obtain ⟨hblank, hplain⟩ := hparts p List.mem_cons_self
    rw [List.cons_append, run_cons, process_of_plain hblank hplain, Draft.executeAll]
    cases hexec : d.execute p with
    | error e => rfl
    | ok r =>
      obtain ⟨e, placed⟩ := r
      cases parts with
      | nil =>
        show run (complete ⟨e, 1, used⟩ placed) rest = _
        rw [complete_last]
        simp [bind, Except.bind, Draft.executeAll]
      | cons q parts =>
        have ih := ih (by simp) (fun x hx => hparts x (List.mem_cons_of_mem _ hx)) e
          (used || placed)
        rw [Draft.execute_column hexec] at ih
        show run (complete ⟨e, parts.length + 2, used⟩ placed) (q :: parts ++ rest) = _
        rw [complete_more]
        refine ih.trans ?_
        simp only [bind, Except.bind]
        cases e.executeAll d.column (q :: parts) with
        | error _ => rfl
        | ok r => simp [Bool.or_assoc]

/-- A run executes its first line, and goes on between two lines: no part is to come. -/
theorem run_line (l : Line) (d : Draft) (used : Bool) (rest : List Pending) :
    ∃ after, run ⟨d, 0, used⟩ (Pending.ofLine l :: rest) =
      d.executeLine l >>= fun e => run ⟨e, 0, after⟩ rest := by
  rw [run_cons]
  by_cases hpar : (Pending.ofLine l).isParallel = true
  · rw [process_of_isParallel hpar]
    cases hparts : (Pending.ofLine l).parts with
    | error e =>
      rw [Draft.executeLine, Pending.statements, if_pos hpar, hparts]
      exact ⟨false, rfl⟩
    | ok parts =>
      rw [Draft.executeLine_parts hpar hparts]
      by_cases hempty : parts = []
      · subst hempty
        exact ⟨false, rfl⟩
      · have hrun := run_parts hempty (fun q hq => ⟨Pending.isBlank_of_mem_parts hparts hq,
          Pending.isParallel_of_mem_parts hparts hq⟩) d false rest
        show ∃ after, run ⟨d, parts.length, false⟩ (parts ++ rest) = _
        rw [hrun]
        cases d.executeAll d.column parts with
        | error e => exact ⟨false, rfl⟩
        | ok r => exact ⟨r.2, rfl⟩
  · rw [Bool.not_eq_true] at hpar
    by_cases hblank : Text.isBlank (Pending.ofLine l).text = true
    · rw [process_of_isBlank hblank, Draft.executeLine_blank hpar hblank]
      exact ⟨used, rfl⟩
    · rw [Bool.not_eq_true] at hblank
      rw [process_of_plain hblank hpar, Draft.executeLine_plain hpar hblank]
      show ∃ after, ((d.execute (Pending.ofLine l)).map _ >>= _) = _
      cases d.execute (Pending.ofLine l) with
      | error e => exact ⟨used, rfl⟩
      | ok r =>
        obtain ⟨e, placed⟩ := r
        refine ⟨used, ?_⟩
        show run (complete ⟨e, 0, used⟩ placed) rest = _
        rw [complete_plain]
        rfl

/-- A run of lines is the execution of one line after the other. -/
theorem draft_run_lines (lines : List Line) (d : Draft) (used : Bool) :
    (run ⟨d, 0, used⟩ (lines.map Pending.ofLine)).map draft = lines.foldlM Draft.executeLine d := by
  induction lines generalizing d used with
  | nil => rw [List.map_nil, run_nil]; rfl
  | cons l lines ih =>
    rw [List.map_cons, List.foldlM_cons]
    obtain ⟨after, hrun⟩ := run_line l d used (lines.map Pending.ofLine)
    rw [hrun]
    cases d.executeLine l with
    | error e => rfl
    | ok e => exact ih e after

end State

/-- **A run reads a program line by line**: the pending statements and the count of parts give what
the reading line by line gives, be it a circuit or an error. -/
theorem Circuit.ofProgram_eq_ofLines (source : Text) : ofProgram source = ofLines source := by
  unfold ofProgram ofLines
  cases Declaration.find (Text.byteLength source) (Line.ofSource source) with
  | error e => rfl
  | ok found =>
    obtain ⟨qubits, lines⟩ := found
    have h := State.draft_run_lines lines (.initial qubits) false
    show ((State.initial qubits).run (lines.map Pending.ofLine) >>= fun s => s.draft.finish) =
      (lines.foldlM Draft.executeLine (Draft.initial qubits) >>= fun d => d.finish)
    rw [← h]
    show ((State.run ⟨.initial qubits, 0, false⟩ _) >>= fun s => s.draft.finish) = _
    cases State.run ⟨.initial qubits, 0, false⟩ (lines.map Pending.ofLine) with
    | error e => rfl
    | ok s => rfl

end QuantumDiagram
