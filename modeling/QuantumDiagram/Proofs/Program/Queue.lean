import QuantumDiagram.Proofs.Program.LineByLine

/-!
# The queue of a run

What holds between two steps of a run (`Reaches`): the pending statements begin with the parts that
are still to come of the parallel line at hand, as many as the state counts (`State.Queued`), so no
part is to come when nothing is pending (`Reaches.hold_eq_zero`). From every state that a run gets
to it goes on to the same end (`State.run_eq_of_steps`), and more lines are run after the others
(`State.run_append`).
-/

namespace QuantumDiagram

/-- A part is a segment of its line, and indented as the line is. -/
theorem Pending.of_mem_parts {p q : Pending} {ps : List Pending} (h : p.parts = .ok ps)
    (hq : q ∈ ps) : ∃ s ∈ p.segments, q = ⟨s, p.line, p.indented⟩ := by
  unfold parts at h
  split at h
  · cases h
  · cases h
    obtain ⟨s, hs, rfl⟩ := List.mem_map.1 hq
    exact ⟨s, (List.mem_filter.1 hs).1, rfl⟩

namespace State

/-! ## Where a run gets to -/

theorem run_eq_of_steps {s t : State} {work rest : List Pending} (h : Steps s work t rest) :
    s.run work = t.run rest := by
  induction h with
  | refl => rfl
  | step head _ ih =>
    rw [run_cons, head]
    exact ih

theorem Steps.trans {s t u : State} {work rest left : List Pending} (h : Steps s work t rest)
    (h' : Steps t rest u left) : Steps s work u left := by
  induction h with
  | refl => exact h'
  | step head _ ih => exact .step head (ih h')

/-- What each step keeps, of the state and of what is still to do, a run keeps. -/
theorem Steps.keeps {P : State → List Pending → Prop}
    (step : ∀ {s t p parts rest}, P s (p :: rest) → s.process p = .ok (t, parts) →
      P t (parts ++ rest))
    {s t : State} {work rest : List Pending} (h : Steps s work t rest) (hs : P s work) :
    P t rest := by
  induction h with
  | refl => exact hs
  | step head _ ih => exact ih (step hs head)

/-- A run that fails gets to the step that fails. -/
theorem exists_steps_of_run_error {s : State} {work : List Pending} {e : ParseError}
    (h : s.run work = .error e) :
    ∃ t p rest, Steps s work t (p :: rest) ∧ t.process p = .error e := by
  fun_induction run s work with
  | case1 => cases h
  | case2 s p rest e' hp =>
    cases h
    exact ⟨s, p, rest, .refl, hp⟩
  | case3 s p rest t parts hp ih =>
    obtain ⟨u, q, left, hsteps, hq⟩ := ih h
    exact ⟨u, q, left, .step hp hsteps, hq⟩

/-- What stands behind other statements is run after them: a step only looks at the first. -/
theorem run_append (s : State) (work more : List Pending) :
    s.run (work ++ more) = s.run work >>= fun t => t.run more := by
  fun_induction run s work with
  | case1 s => rfl
  | case2 s p rest e hp =>
    rw [List.cons_append, run_cons, hp]
    rfl
  | case3 s p rest t parts hp ih =>
    rw [List.cons_append, run_cons, hp, ← ih, List.append_assoc]
    rfl

/-! ## The shape of the queue -/

/-- The statements to do begin with as many statements as the state counts, and these are the last
parts of a parallel line. -/
structure Queued (s : State) (work : List Pending) : Prop where
  enough : s.hold ≤ work.length
  parts : 0 < s.hold → ∃ (q : Pending) (done : List Pending),
    q.isParallel = true ∧ q.parts = .ok (done ++ work.take s.hold)

theorem queued_of_hold {s : State} (h : s.hold = 0) (work : List Pending) : s.Queued work where
  enough := h ▸ Nat.zero_le _
  parts hpos := absurd h (Nat.ne_of_gt hpos)

theorem Queued.plain {s : State} {work : List Pending} (h : s.Queued work) :
    ∀ p ∈ work.take s.hold, Text.isBlank p.text = false ∧ p.isParallel = false := by
  intro p hp
  have hpos : 0 < s.hold := Nat.pos_of_ne_zero fun hzero => by simp [hzero] at hp
  obtain ⟨q, done, -, hparts⟩ := h.parts hpos
  have hmem := List.mem_append_right done hp
  exact ⟨Pending.isBlank_of_mem_parts hparts hmem, Pending.isParallel_of_mem_parts hparts hmem⟩

theorem mem_take_of_pos {p : Pending} {n : Nat} (hpos : 0 < n) (rest : List Pending) :
    p ∈ (p :: rest).take n := by
  obtain ⟨m, rfl⟩ := Nat.exists_eq_add_one.2 hpos
  exact List.mem_cons_self

theorem hold_complete (s : State) (placed : Bool) : (s.complete placed).hold = s.hold - 1 := by
  unfold complete
  split
  · rfl
  · show s.hold = s.hold - 1
    omega

theorem Queued.process {s t : State} {p : Pending} {parts rest : List Pending}
    (h : s.Queued (p :: rest)) (hp : s.process p = .ok (t, parts)) : t.Queued (parts ++ rest) := by
  obtain ⟨hblank, rfl, rfl⟩ | ⟨hpar, hparts, rfl⟩ | ⟨-, -, rfl, d, placed, -, rfl⟩ := process_ok hp
  · -- A blank statement is no part, so none is counted.
    refine queued_of_hold (Nat.eq_zero_of_not_pos fun hpos => ?_) _
    rw [(h.plain p (mem_take_of_pos hpos rest)).1] at hblank
    cases hblank
  · exact ⟨by simp, fun _ => ⟨p, [], hpar, by simpa using hparts⟩⟩
  · have hcount : (complete { s with draft := d } placed).hold = s.hold - 1 :=
      hold_complete _ placed
    have henough := h.enough
    rw [List.length_cons] at henough
    constructor
    · rw [hcount, List.nil_append]
      omega
    · rw [hcount]
      intro hpos
      obtain ⟨n, hn⟩ : ∃ n, s.hold = n + 1 := ⟨s.hold - 1, by omega⟩
      obtain ⟨q, done, hpar, hparts⟩ := h.parts (by omega)
      rw [hn, List.take_succ_cons] at hparts
      exact ⟨q, done ++ [p], hpar, by simpa [hn] using hparts⟩

/-- A part is executed, and the count goes down. -/
theorem Queued.process_part {s t : State} {p : Pending} {parts rest : List Pending}
    (h : s.Queued (p :: rest)) (hpos : 0 < s.hold) (hp : s.process p = .ok (t, parts)) :
    parts = [] ∧ ∃ d placed, s.draft.execute p = .ok (d, placed) ∧
      t = complete { s with draft := d } placed := by
  obtain ⟨hnb, hplain⟩ := h.plain p (mem_take_of_pos hpos rest)
  obtain ⟨hblank, -⟩ | ⟨hpar, -⟩ | ⟨-, -, hnil, hexec⟩ := process_ok hp
  · rw [hnb] at hblank
    cases hblank
  · rw [hplain] at hpar
    cases hpar
  · exact ⟨hnil, hexec⟩

/-! ## Whole lines behind the parts -/

/-- Behind the parts that are still to come stand whole lines, the last ones of `lines`. -/
def Aligned (lines : List Line) (s : State) (work : List Pending) : Prop :=
  ∃ left, left <:+ lines ∧ work.drop s.hold = left.map Pending.ofLine

theorem Aligned.process {lines : List Line} {s t : State} {p : Pending} {parts rest : List Pending}
    (h : s.Aligned lines (p :: rest)) (hqueue : s.Queued (p :: rest))
    (hp : s.process p = .ok (t, parts)) : t.Aligned lines (parts ++ rest) := by
  -- The statement is a line of its own if no part is to come.
  have hline (hhold : s.hold = 0) : ∃ left, left <:+ lines ∧ rest = left.map Pending.ofLine := by
    obtain ⟨left, hleft, hwork⟩ := h
    rw [hhold, List.drop_zero] at hwork
    cases left with
    | nil => cases hwork
    | cons l left => exact ⟨left, (List.suffix_cons l left).trans hleft, (List.cons.inj hwork).2⟩
  obtain ⟨hblank, ht, rfl⟩ | ⟨hpar, -, rfl⟩ | ⟨-, -, rfl, d, placed, -, rfl⟩ := process_ok hp
  · have hhold : s.hold = 0 := Nat.eq_zero_of_not_pos fun hpos => by
      rw [(hqueue.plain p (mem_take_of_pos hpos rest)).1] at hblank
      cases hblank
    rw [Aligned, ht, hhold]
    exact hline hhold
  · have hhold : s.hold = 0 := Nat.eq_zero_of_not_pos fun hpos => by
      rw [(hqueue.plain p (mem_take_of_pos hpos rest)).2] at hpar
      cases hpar
    obtain ⟨left, hleft, hrest⟩ := hline hhold
    exact ⟨left, hleft, by rw [← hrest]; exact List.drop_left⟩
  · have hcount : (complete { s with draft := d } placed).hold = s.hold - 1 :=
      hold_complete _ placed
    rw [Aligned, hcount, List.nil_append]
    cases hhold : s.hold with
    | zero => exact hline hhold
    | succ n =>
      obtain ⟨left, hleft, hwork⟩ := h
      rw [hhold, List.drop_succ_cons] at hwork
      exact ⟨left, hleft, hwork⟩

end State

/-- The lines behind the declaration are the last ones. -/
theorem Declaration.find_suffix {size qubits : Nat} {lines rest : List Line}
    (h : find size lines = .ok (qubits, rest)) : rest <:+ lines := by
  induction lines with
  | nil => cases h
  | cons l lines ih =>
    rw [find] at h
    split at h
    · split at h
      · cases h
        exact List.suffix_cons l _
      · cases h
    · exact (ih h).trans (List.suffix_cons l lines)

/-! ## The run of a program -/

/-- The run of a program gets to the state `s` with the statements `rest` still to do. -/
def Reaches (source : Text) (s : State) (rest : List Pending) : Prop :=
  ∃ qubits lines,
    Declaration.find (Text.byteLength source) (Line.ofSource source) = .ok (qubits, lines) ∧
      State.Steps (.initial qubits) (lines.map Pending.ofLine) s rest

namespace Reaches

variable {source : Text} {s t : State} {rest left : List Pending}

theorem steps (h : Reaches source s rest) (h' : State.Steps s rest t left) :
    Reaches source t left := by
  obtain ⟨qubits, lines, hfind, hsteps⟩ := h
  exact ⟨qubits, lines, hfind, hsteps.trans h'⟩

theorem queued (h : Reaches source s rest) : s.Queued rest := by
  obtain ⟨qubits, lines, -, hsteps⟩ := h
  exact hsteps.keeps State.Queued.process (State.queued_of_hold rfl _)

theorem hold_eq_zero (h : Reaches source s []) : s.hold = 0 := Nat.le_zero.1 h.queued.enough

/-- If no part is to come, what is pending are the last lines of the program. -/
theorem lines (h : Reaches source s rest) (hhold : s.hold = 0) :
    ∃ left, left <:+ Line.ofSource source ∧ rest = left.map Pending.ofLine := by
  obtain ⟨qubits, lines, hfind, hsteps⟩ := h
  have hinitial : (State.initial qubits).Aligned lines (lines.map Pending.ofLine) :=
    ⟨lines, List.suffix_rfl, rfl⟩
  obtain ⟨-, left, hleft, hwork⟩ := hsteps.keeps
    (P := fun s work => s.Queued work ∧ s.Aligned lines work)
    (fun ⟨hqueue, haligned⟩ hp => ⟨hqueue.process hp, haligned.process hqueue hp⟩)
    ⟨State.queued_of_hold rfl _, hinitial⟩
  rw [hhold, List.drop_zero] at hwork
  exact ⟨left, hleft.trans (Declaration.find_suffix hfind), hwork⟩

/-- A run keeps an invariant of drafts that holds of the empty draft. -/
theorem invariant {P : Draft → Prop} (hP : Draft.Invariant P)
    (hinitial : ∀ qubits, 1 ≤ qubits → P (.initial qubits)) (h : Reaches source s rest) :
    s.draft.Sized ∧ P s.draft := by
  obtain ⟨qubits, lines, hfind, hsteps⟩ := h
  exact hP.steps hsteps
    ⟨Draft.sized_initial qubits, hinitial qubits (Declaration.find_ok hfind).1⟩

end Reaches

namespace Circuit

variable {source : Text}

theorem ofProgram_of_find_error {e : ParseError}
    (h : Declaration.find (Text.byteLength source) (Line.ofSource source) = .error e) :
    ofProgram source = .error e := by
  rw [ofProgram, h]
  rfl

theorem ofProgram_of_find {qubits : Nat} {lines : List Line}
    (h : Declaration.find (Text.byteLength source) (Line.ofSource source) = .ok (qubits, lines)) :
    ofProgram source =
      (State.initial qubits).run (lines.map Pending.ofLine) >>= fun s => s.draft.finish := by
  rw [ofProgram, h]
  rfl

/-- A circuit is finished from the draft that the run ends with. -/
theorem reaches_of_ofProgram {m : Circuit} (h : ofProgram source = .ok m) :
    ∃ s, Reaches source s [] ∧ s.draft.finish = .ok m := by
  cases hfind : Declaration.find (Text.byteLength source) (Line.ofSource source) with
  | error e =>
    rw [ofProgram_of_find_error hfind] at h
    cases h
  | ok found =>
    obtain ⟨qubits, lines⟩ := found
    rw [ofProgram_of_find hfind] at h
    obtain ⟨s, hs, h⟩ := bind_eq_ok.1 h
    exact ⟨s, ⟨qubits, lines, hfind, State.steps_of_run hs⟩, h⟩

end Circuit

/-- From every state that a run gets to, it goes on to the circuit. -/
theorem Reaches.finishes {source : Text} {s : State} {rest : List Pending} {m : Circuit}
    (hs : Reaches source s rest) (h : Circuit.ofProgram source = .ok m) :
    ∃ t, State.Steps s rest t [] ∧ t.draft.finish = .ok m := by
  obtain ⟨qubits, lines, hfind, hsteps⟩ := hs
  rw [Circuit.ofProgram_of_find hfind, State.run_eq_of_steps hsteps] at h
  obtain ⟨t, ht, h⟩ := bind_eq_ok.1 h
  exact ⟨t, State.steps_of_run ht, h⟩

end QuantumDiagram
