import QuantumDiagram.Proofs.Circuit.Density
import QuantumDiagram.Proofs.Program.Blame
import QuantumDiagram.Proofs.Program.Collision
import QuantumDiagram.Proofs.Program.Lines

/-!
# Lines that find a site taken

The whole grid is looked at when a gate is placed, but only the line itself can be in the way: its
column is empty when it begins. `Circuit.siteTaken_ofProgram` says for every line of a program
whether it finds a site taken, and which one.
-/

namespace QuantumDiagram

theorem Fault.takenSite?_eq_some {fault : Fault} {s : Site} :
    fault.takenSite? = some s ↔ fault = .malformedStatement (.siteTaken s.channel s.column) := by
  constructor
  · intro h
    unfold takenSite? at h
    split at h
    · cases h
      rfl
    · cases h
  · rintro rfl
    rfl

namespace Pending

variable {p q : Pending} {ps : List Pending}

theorem of_mem_statements (h : p.statements = .ok ps) (hq : q ∈ ps) :
    q.line = p.line ∧ q.stretch.Within p.stretch := by
  unfold statements at h
  split at h
  · obtain ⟨s, hs, rfl⟩ := of_mem_parts h hq
    exact ⟨rfl, within_segments hs⟩
  · cases h
    split at hq
    · cases hq
    · rw [List.mem_singleton.1 hq]
      exact ⟨rfl, .refl _⟩

theorem eq_of_statements_plain (hp : p.isParallel = false) (h : p.statements = .ok ps) :
    ps = [] ∨ ps = [p] := by
  rw [statements, hp] at h
  cases h
  split
  · exact .inl rfl
  · exact .inr rfl

theorem mark_not_mem_of_mem_statements {l : Line} (h : (ofLine l).statements = .ok ps) :
    ∀ q ∈ ps, '#' ∉ q.text := fun _ hq hmark =>
  l.mark_not_mem_uncommented ((of_mem_statements h hq).2.subset _ hmark)

theorem takenSite?_of_statements {err : ParseError} (h : p.statements = .error err) :
    err.fault.takenSite? = none := by
  unfold statements at h
  split at h
  · unfold parts at h
    split at h
    · cases h
      rfl
    · cases h
  · cases h

end Pending

namespace Draft

variable {d : Draft} {l : Line} {ps : List Pending} {c : Channel} {k : Nat} {s : Site}
  {err : ParseError}

/-! ## The line of the error -/

theorem exists_of_executeAll_error (h : d.executeAll k ps = .error err) :
    ∃ e : Draft, ∃ p ∈ ps, e.execute p = .error err := by
  induction ps generalizing d with
  | nil => cases h
  | cons p ps ih =>
    obtain hp | ⟨⟨e, placed⟩, -, h⟩ := bind_eq_error.1 h
    · exact ⟨_, p, List.mem_cons_self, hp⟩
    · obtain hps | ⟨_, -, h⟩ := bind_eq_error.1 h
      · obtain ⟨e, q, hq, he⟩ := ih hps
        exact ⟨e, q, List.mem_cons_of_mem _ hq, he⟩
      · cases h

/-- A line that finds a site taken is blamed itself, and not the header of the open subroutine. -/
theorem line_of_executeLine (h : d.executeLine l = .error err)
    (hsite : err.fault.takenSite? = some s) : err.line = l.number := by
  obtain hps | ⟨ps, hps, h⟩ := bind_eq_error.1 h
  · rw [Pending.takenSite?_of_statements hps] at hsite
    cases hsite
  · obtain hall | ⟨_, -, h⟩ := bind_eq_error.1 h
    · obtain ⟨e, p, hp, he⟩ := exists_of_executeAll_error hall
      have hmark := Pending.mark_not_mem_of_mem_statements hps p hp
      obtain hclosed | hblames := execute_error hmark he
      · rw [closeSubroutine_takenSite? hclosed] at hsite
        cases hsite
      · rw [hblames.line, (Pending.of_mem_statements hps hp).1]
        rfl
    · cases h

/-- The error of a run of lines is the error of one of them. -/
theorem exists_line_of_run {lines : List Line} {used : Bool}
    (h : State.run ⟨d, 0, used⟩ (lines.map Pending.ofLine) = .error err)
    (hsite : err.fault.takenSite? = some s) : ∃ l ∈ lines, err.line = l.number := by
  have hlines := State.draft_run_lines lines d used
  rw [h] at hlines
  obtain ⟨e, l, hl, he⟩ := exists_of_foldlM_error hlines.symm
  exact ⟨l, hl, line_of_executeLine he hsite⟩

/-! ## One line -/

/-- In an empty column, a line finds a site taken for the first clash of its statements. -/
theorem findsTaken_executeLine (hd : d.grid.Holds d.column []) :
    FindsTaken (d.executeLine l) ⟨c, k⟩ ↔
      k = d.column ∧ ∃ ps, (Pending.ofLine l).statements = .ok ps ∧ d.Clashes [] ps c := by
  rw [executeLine, findsTaken_bind]
  constructor
  · rintro (⟨err, hps, hsite⟩ | ⟨ps, hps, h⟩)
    · rw [Pending.takenSite?_of_statements hps] at hsite
      cases hsite
    · obtain h | ⟨_, -, h⟩ := findsTaken_bind.1 h
      · have hmarks := Pending.mark_not_mem_of_mem_statements hps
        obtain ⟨hk, hclash⟩ := (findsTaken_executeAll hmarks hd .nil).1 h
        exact ⟨hk, ps, hps, hclash⟩
      · exact absurd h not_findsTaken_ok
  · rintro ⟨hk, ps, hps, hclash⟩
    have hmarks := Pending.mark_not_mem_of_mem_statements hps
    refine .inr ⟨ps, hps, findsTaken_bind.2 (.inl ?_)⟩
    exact (findsTaken_executeAll hmarks hd .nil).2 ⟨hk, hclash⟩

end Draft

/-! ## A line of a program -/

theorem Reaches.eq_ofLine {source : Text} {s : State} {p : Pending} {rest : List Pending}
    (h : Reaches source s (p :: rest)) (hhold : s.hold = 0) : p = Pending.ofLine p.line := by
  obtain ⟨left, -, hwork⟩ := h.lines hhold
  cases left with
  | nil => cases hwork
  | cons l lines =>
    obtain ⟨rfl, -⟩ := List.cons.inj hwork
    rfl

/-- Between two lines the current column is empty. -/
theorem Reaches.holds_nil {source : Text} {s : State} {rest : List Pending}
    (h : Reaches source s rest) (hhold : s.hold = 0) :
    s.draft.grid.Holds s.draft.column [] := by
  have hfills := h.dense.fills
  rw [State.columnsInUse_of_hold hhold] at hfills
  intro c
  refine iff_of_false (fun hoccupied => ?_) (by simp)
  obtain ⟨i, hi⟩ := Option.isSome_iff_exists.1 hoccupied
  exact Nat.lt_irrefl _ ((hfills _).1 ⟨c, i, hi⟩)

namespace Circuit

open Instruction (Apart)

variable {source : Text} {s : State} {p : Pending} {rest : List Pending} {site : Site}

/-- The program is refused because the line finds the site taken. -/
def FindsTakenAt (source : Text) (l : Line) (s : Site) : Prop :=
  ∃ err, ofProgram source = .error err ∧ err.line = l.number ∧
    err.fault = .malformedStatement (.siteTaken s.channel s.column)

/-- The error of a line that is processed is the error of the program: later lines blame
themselves. -/
theorem findsTakenAt_iff (hs : Reaches source s (p :: rest)) (hhold : s.hold = 0) :
    FindsTakenAt source p.line site ↔ FindsTaken (s.draft.executeLine p.line) site := by
  obtain ⟨left, hleft, hwork⟩ := hs.lines hhold
  cases left with
  | nil => cases hwork
  | cons l lines =>
    obtain ⟨rfl, rfl⟩ := List.cons.inj hwork
    obtain ⟨qubits, declared, hfind, hsteps⟩ := hs
    obtain ⟨d, hold, used⟩ := s
    cases hhold
    obtain ⟨after, hrun⟩ := State.run_line l d used (lines.map Pending.ofLine)
    have hprogram := ofProgram_of_find hfind
    rw [State.run_eq_of_steps hsteps, hrun] at hprogram
    show FindsTakenAt source l site ↔ FindsTaken (d.executeLine l) site
    simp only [FindsTakenAt, FindsTaken, ← Fault.takenSite?_eq_some, hprogram]
    constructor
    · rintro ⟨err, herr, hline, hsite⟩
      obtain hrun | ⟨t, -, hfinish⟩ := bind_eq_error.1 herr
      · obtain hexecute | ⟨e, -, hlater⟩ := bind_eq_error.1 hrun
        · exact ⟨err, hexecute, hsite⟩
        · obtain ⟨l', hl', hline'⟩ := Draft.exists_line_of_run hlater hsite
          have hnumbers := (Line.pairwise_number_ofSource source).sublist hleft.sublist
          have hlt := List.rel_of_pairwise_cons hnumbers hl'
          omega
      · obtain ⟨cause, hcause⟩ := malformedSubroutine_of_finish hfinish
        rw [Fault.takenSite?_eq_some, hcause] at hsite
        cases hsite
    · rintro ⟨err, herr, hsite⟩
      refine ⟨err, ?_, Draft.line_of_executeLine herr hsite, hsite⟩
      rw [herr]
      rfl

theorem findsTakenAt_iff_clashes (hs : Reaches source s (p :: rest)) (hhold : s.hold = 0) :
    FindsTakenAt source p.line site ↔ site.column = s.draft.column ∧
      ∃ ps, p.statements = .ok ps ∧ s.draft.Clashes [] ps site.channel := by
  rw [findsTakenAt_iff hs hhold, Draft.findsTaken_executeLine (hs.holds_nil hhold),
    ← hs.eq_ofLine hhold]

/-- **A site is taken only by the line itself.** A line that is processed while no part is to come
finds a site taken just if two of the instructions clash that its statements stand for, up to one
that stands for nothing. It is refused for the first of them that shares a channel with an earlier
one, and for the smallest of these channels. The two belong to different parts of the line, or to
one part that measures a channel twice, so a single gate is never refused like this. No cell is ever
overwritten. -/
theorem siteTaken_ofProgram (hs : Reaches source s (p :: rest)) (hhold : s.hold = 0) :
    (∀ c k, FindsTakenAt source p.line ⟨c, k⟩ ↔ k = s.draft.column ∧ ∃ ps first parts d,
      p.statements = .ok ps ∧ first <+: ps ∧ s.draft.Intends first parts d ∧
        FirstClash parts.flatten c) ∧
    (∀ ps first parts d, p.statements = .ok ps → first <+: ps → s.draft.Intends first parts d →
      ((∃ c, FirstClash parts.flatten c) ↔
        ¬ parts.Pairwise (fun is js => ∀ i ∈ is, ∀ j ∈ js, i.Apart j) ∨
          s.draft.SomeMeasuresTwice first) ∧
      (first = ps → ∀ c, FindsTakenAt source p.line ⟨c, s.draft.column⟩ ↔
        FirstClash parts.flatten c)) ∧
    (∀ t left u more, State.Steps s (p :: rest) t left → State.Steps t left u more →
      ∀ c k i, t.draft.grid.get? c k = some i → u.draft.grid.get? c k = some i) ∧
    (p.isParallel = false → Draft.leadingWord p ≠ Gate.measure.name →
      ∀ site, ¬ FindsTakenAt source p.line site) := by
  have hmarks {ps : List Pending} (hps : p.statements = .ok ps) : ∀ q ∈ ps, '#' ∉ q.text := by
    rw [hs.eq_ofLine hhold] at hps
    exact Pending.mark_not_mem_of_mem_statements hps
  refine ⟨fun c k => ?_, fun ps first parts d hps hfirst hintends => ⟨?_, ?_⟩, ?_, ?_⟩
  · rw [findsTakenAt_iff_clashes hs hhold]
    refine and_congr Iff.rfl ?_
    constructor
    · rintro ⟨ps, hps, first, parts, d, hfirst, hintends, hclash⟩
      exact ⟨ps, first, parts, d, hps, hfirst, hintends, hclash⟩
    · rintro ⟨ps, first, parts, d, hps, hfirst, hintends, hclash⟩
      exact ⟨ps, hps, first, parts, d, hfirst, hintends, hclash⟩
  · rw [exists_firstClash_iff]
    exact hintends.not_pairwise_flatten fun q hq => hmarks hps q (hfirst.subset hq)
  · rintro rfl c
    rw [findsTakenAt_iff_clashes hs hhold]
    simp only [hps, Except.ok.injEq, exists_eq_left', Draft.clashes_iff_of_intends hintends,
      List.nil_append, true_and]
  · intro t left u more hst htu c k i hi
    exact (htu.extends (hs.steps hst).dense.qubits.1).kept hi
  · intro hplain hword site htaken
    obtain ⟨-, ps, hps, hclash⟩ := (findsTakenAt_iff_clashes hs hhold).1 htaken
    obtain rfl | rfl := Pending.eq_of_statements_plain hplain hps
    · exact Draft.clashes_nil .nil hclash
    · have hmark := hmarks hps p List.mem_cons_self
      exact hword (Draft.leadingWord_of_measuresTwice hmark
        (Draft.measuresTwice_of_clashes hmark hclash))

/-- A gate on the bit that a measurement in the same block writes to. -/
theorem siteTaken_ofProgram_bit :
    let source := "qubits 2\n\x7bmeasure q0 | x b0\x7d".toList
    ∃ s p rest, Reaches source s (p :: rest) ∧ s.hold = 0 ∧
      FindsTakenAt source p.line ⟨.bit 0, 0⟩ ∧ s.draft.column = 0 ∧
      ∃ ps first parts d, p.statements = .ok ps ∧ first <+: ps ∧ s.draft.Intends first parts d ∧
        FirstClash parts.flatten (.bit 0) := by
  intro source
  let l : Line := ⟨2, 9, "\x7bmeasure q0 | x b0\x7d".toList⟩
  have hfind : Declaration.find (Text.byteLength source) (Line.ofSource source) = .ok (2, [l]) :=
    toOption_eq_some.1 (by decide +kernel)
  have hs : Reaches source (.initial 2) [Pending.ofLine l] := ⟨2, [l], hfind, .refl⟩
  have hwrong : (match ofProgram source with
      | .error err => decide (err.line = 2 ∧ err.fault.takenSite? = some ⟨.bit 0, 0⟩)
      | .ok _ => false) = true := by
    decide +kernel
  split at hwrong
  · rename_i err herror
    obtain ⟨hline, hsite⟩ := of_decide_eq_true hwrong
    have htaken : FindsTakenAt source l ⟨.bit 0, 0⟩ :=
      ⟨err, herror, hline, Fault.takenSite?_eq_some.1 hsite⟩
    obtain ⟨hcolumn, hclash⟩ := ((siteTaken_ofProgram hs rfl).1 (.bit 0) 0).1 htaken
    exact ⟨_, _, [], hs, rfl, htaken, hcolumn.symm, hclash⟩
  · cases hwrong

end Circuit

end QuantumDiagram
