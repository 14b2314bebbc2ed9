import QuantumDiagram.Proofs.Circuit.Density

/-!
# What more lines add

A run only adds to its draft (`Draft.Extends`): cells stay, new ones lie in the current column or in
a later one, and the subroutines go on from those that there are (`Draft.Follows`). Lines behind a
program are run after it, so `Circuit.ofProgram_append` says that the circuit of the longer program
extends that of the shorter one, and that an error stays the error.
-/

namespace QuantumDiagram

namespace Draft

/-- The recorded subroutines, and the open one as if it ended before the column `stop`. -/
def subroutinesAt (d : Draft) (stop : Nat) : List Subroutine :=
  d.subroutines ++ d.opened.toList.map fun o => ⟨o.name, o.repetitions, o.start, stop⟩

theorem closeSubroutine_eq {d e : Draft} (h : d.closeSubroutine = .ok e) :
    e = { d with opened := none, subroutines := d.subroutinesAt d.column } := by
  obtain ⟨hnone, rfl⟩ | ⟨o, ho, -, rfl⟩ := closeSubroutine_ok h
  · obtain ⟨qubits, aliases, grid, opened, subroutines, column⟩ := e
    cases hnone
    simp [subroutinesAt]
  · simp [subroutinesAt, ho]

theorem finish_frame {d : Draft} {m : Circuit} (h : d.finish = .ok m) :
    m.qubits = d.qubits ∧ m.grid = d.grid ∧ m.subroutines = d.subroutinesAt d.column := by
  obtain ⟨e, he, rfl⟩ := map_eq_ok.1 h
  rw [closeSubroutine_eq he]
  exact ⟨rfl, rfl, rfl⟩

/-- How the subroutines of a draft go on from those of `d`: the open one is still open, or it has
ended, at the column of `d` or later, and no other began before that column. -/
inductive Follows (d e : Draft) : Prop
  | same (opened : e.opened = d.opened) (subroutines : e.subroutines = d.subroutines)
  | more (stop : Nat) (later : List Subroutine) (ended : d.column ≤ stop)
      (subroutines : e.subroutines = d.subroutinesAt stop ++ later)
      (began : ∀ s ∈ later, d.column ≤ s.start)
      (opened : ∀ o, e.opened = some o → d.column ≤ o.start)

theorem Follows.congr {d e f : Draft} (h : d.Follows e) (hopened : f.opened = e.opened)
    (hsubroutines : f.subroutines = e.subroutines) : d.Follows f := by
  cases h with
  | same hopened' hsubroutines' =>
    exact .same (hopened.trans hopened') (hsubroutines.trans hsubroutines')
  | more stop later ended hsubroutines' began hopened' =>
    exact .more stop later ended (hsubroutines.trans hsubroutines') began (hopened ▸ hopened')

/-- Whatever ends last, the subroutines are those of `d` and later ones. -/
theorem Follows.subroutinesAt {d e : Draft} (h : d.Follows e) {k : Nat} (hk : d.column ≤ k) :
    ∃ stop later, d.column ≤ stop ∧ e.subroutinesAt k = d.subroutinesAt stop ++ later ∧
      ∀ s ∈ later, d.column ≤ s.start := by
  cases h with
  | same hopened hsubroutines =>
    refine ⟨k, [], hk, ?_, by simp⟩
    rw [List.append_nil, Draft.subroutinesAt, hopened, hsubroutines]
    rfl
  | more stop later ended hsubroutines began hopened =>
    refine ⟨stop, later ++ e.opened.toList.map fun o => ⟨o.name, o.repetitions, o.start, k⟩, ended,
      ?_, fun s hs => ?_⟩
    · rw [Draft.subroutinesAt, hsubroutines, List.append_assoc]
    · rcases List.mem_append.1 hs with hs | hs
      · exact began s hs
      · obtain ⟨o, ho, rfl⟩ := List.mem_map.1 hs
        exact hopened o (Option.mem_toList.1 ho)

theorem Follows.closed {d e f : Draft} (h : d.Follows e) (hcolumn : d.column ≤ e.column)
    (hf : e.closeSubroutine = .ok f) : d.Follows f := by
  obtain ⟨stop, later, ended, hsubroutines, began⟩ := h.subroutinesAt hcolumn
  rw [closeSubroutine_eq hf]
  exact .more stop later ended hsubroutines began (by simp)

/-- `d.Extends e`: the draft `e` has all that is in `d`, and what it has more lies in the current
column of `d` or later. -/
structure Extends (d e : Draft) : Prop where
  qubits : e.qubits = d.qubits
  column : d.column ≤ e.column
  kept {c : Channel} {k : Nat} {i : Instruction} :
    d.grid.get? c k = some i → e.grid.get? c k = some i
  added {c : Channel} {k : Nat} {i : Instruction} :
    e.grid.get? c k = some i → d.grid.get? c k = some i ∨ d.column ≤ k
  follows : d.Follows e

theorem Extends.refl (d : Draft) : d.Extends d where
  qubits := rfl
  column := Nat.le_refl _
  kept h := h
  added h := .inl h
  follows := .same rfl rfl

theorem Extends.closed {d e f : Draft} (h : d.Extends e) (hf : e.closeSubroutine = .ok f) :
    d.Extends f := by
  obtain ⟨hqubits, -, hgrid, hcolumn⟩ := closeSubroutine_frame hf
  exact {
    qubits := hqubits.trans h.qubits
    column := hcolumn ▸ h.column
    kept := hgrid ▸ h.kept
    added := hgrid ▸ h.added
    follows := h.follows.closed h.column hf }

/-- A subroutine that begins in the current column begins after what there was before. -/
theorem Extends.opened {d e f : Draft} (h : d.Extends e) (hf : e.closeSubroutine = .ok f)
    {o : OpenSubroutine} (ho : d.column ≤ o.start) : d.Extends { f with opened := some o } := by
  have hclosed := h.closed hf
  refine { hclosed with follows := ?_ }
  obtain ⟨stop, later, ended, hsubroutines, began⟩ := h.follows.subroutinesAt h.column
  refine .more stop later ended ?_ began fun o' ho' => ?_
  · rw [← hsubroutines, closeSubroutine_eq hf]
  · cases ho'
    exact ho

theorem invariant_extends (d : Draft) : Invariant d.Extends where
  closed h hf := h.closed hf
  effect _ h heffect := by
    cases heffect with
    | nothing => exact h
    | header hclosed hstart => exact h.opened hclosed (hstart ▸ h.column)
    | naming _ => exact { h with follows := h.follows.congr rfl rfl }
    | gates hplaced =>
      obtain ⟨is, g, his, hg, rfl⟩ := hplaced
      refine { h with
        kept := fun hi => hg.kept (h.kept hi)
        added := fun hi => ?_
        follows := h.follows.congr rfl rfl }
      obtain ⟨j, hj, rfl⟩ | hi := hg.cases hi
      · exact .inr ((his j hj).1 ▸ h.column)
      · exact h.added hi
  advanced h := by
    refine { h with column := Nat.le_trans h.column ?_, follows := h.follows.congr rfl rfl }
    unfold advance
    split <;> simp

end Draft

/-- A run only adds to the draft. -/
theorem State.Steps.extends {s t : State} {work rest : List Pending} (h : Steps s work t rest)
    (hs : s.draft.Sized) : s.draft.Extends t.draft :=
  ((Draft.invariant_extends s.draft).steps h ⟨hs, .refl _⟩).2

/-! ## Lines behind a program -/

theorem Stretch.placeFrom_append (gap offset : Nat) (ts us : List Text) :
    ∃ next, placeFrom gap offset (ts ++ us) = placeFrom gap offset ts ++ placeFrom gap next us := by
  induction ts generalizing offset with
  | nil => exact ⟨offset, rfl⟩
  | cons t ts ih =>
    obtain ⟨next, hnext⟩ := ih (offset + Text.byteLength t + gap)
    exact ⟨next, by simp only [List.cons_append, placeFrom, hnext]⟩

theorem Line.ofSource_append (source more : Text) :
    ∃ rest, ofSource (source ++ '\n' :: more) = ofSource source ++ rest := by
  obtain ⟨next, hnext⟩ := Stretch.placeFrom_append ('\n'.utf8Size) 0 (source.splitOn '\n')
    (more.splitOn '\n')
  simp only [ofSource, Stretch.split, List.splitOn_append_cons_self, hnext, List.zipIdx_append,
    List.map_append]
  exact ⟨_, rfl⟩

/-- A declaration that is found, or found to be wrong, is so whatever lines follow. -/
theorem Declaration.find_append {size size' : Nat} {lines more : List Line} :
    (∀ qubits rest, find size lines = .ok (qubits, rest) →
      find size' (lines ++ more) = .ok (qubits, rest ++ more)) ∧
    (∀ e, find size lines = .error e → 1 ≤ e.line → find size' (lines ++ more) = .error e) := by
  induction lines with
  | nil =>
    refine ⟨fun _ _ h => (by cases h), fun e h hline => ?_⟩
    cases h
    cases hline
  | cons l lines ih =>
    rw [List.cons_append, find, find]
    split
    · split
      · refine ⟨fun _ _ h => ?_, fun _ h => (by cases h)⟩
        cases h
        rfl
      · refine ⟨fun _ _ h => (by cases h), fun _ h _ => ?_⟩
        cases h
        rfl
    · exact ih

namespace Circuit

/-- `m.GrowsTo m'`: the circuit `m'` has all that is in `m`, and what it has more lies behind the
columns of `m`; only the last subroutine of `m` may go on. -/
structure GrowsTo (m m' : Circuit) : Prop where
  qubits : m'.qubits = m.qubits
  kept {c : Channel} {k : Nat} {i : Instruction} :
    m.grid.get? c k = some i → m'.grid.get? c k = some i
  added {c : Channel} {k : Nat} {i : Instruction} :
    m'.grid.get? c k = some i → m.grid.get? c k = none → m.columns ≤ k
  subroutines : m.subroutines <+: m'.subroutines ∨
    ∃ before last stop, m.subroutines = before ++ [last] ∧ last.stop < stop ∧
      before ++ [{ last with stop }] <+: m'.subroutines

/-- The circuits that two drafts are finished to are related as the drafts are. -/
theorem growsTo_of_extends {d e : Draft} {m m' : Circuit} (hd : d.grid.FillsTo d.column)
    (h : d.Extends e) (hm : d.finish = .ok m) (hm' : e.finish = .ok m') : m.GrowsTo m' := by
  obtain ⟨hqubits, hgrid, hsubroutines⟩ := Draft.finish_frame hm
  obtain ⟨hqubits', hgrid', hsubroutines'⟩ := Draft.finish_frame hm'
  obtain ⟨-, hcolumns⟩ := Draft.columns_finish hd hm
  refine ⟨?_, fun hi => ?_, fun hi hnone => ?_, ?_⟩
  · rw [hqubits', hqubits, h.qubits]
  · rw [hgrid] at hi
    rw [hgrid']
    exact h.kept hi
  · rw [hgrid'] at hi
    rw [hgrid] at hnone
    rw [hcolumns]
    obtain hi | hk := h.added hi
    · rw [hnone] at hi
      cases hi
    · exact hk
  · obtain ⟨stop, later, ended, hlater, -⟩ := h.follows.subroutinesAt h.column
    rw [hsubroutines, hsubroutines', hlater]
    cases hopened : d.opened with
    | none => exact .inl ⟨later, by simp [Draft.subroutinesAt, hopened]⟩
    | some o =>
      rcases Nat.eq_or_lt_of_le ended with rfl | hlt
      · exact .inl ⟨later, rfl⟩
      · refine .inr ⟨d.subroutines, ⟨o.name, o.repetitions, o.start, d.column⟩, stop, ?_, hlt,
          later, ?_⟩
        · simp [Draft.subroutinesAt, hopened]
        · simp [Draft.subroutinesAt, hopened]

theorem malformedSubroutine_of_finish {d : Draft} {e : ParseError} (h : d.finish = .error e) :
    ∃ cause, e.fault = .malformedSubroutine cause := by
  unfold Draft.finish Draft.closeSubroutine at h
  split at h
  · unfold Draft.recordSubroutine at h
    split at h
    · cases h
      exact ⟨_, rfl⟩
    · split at h
      · cases h
        exact ⟨_, rfl⟩
      · cases h
  · cases h

/-- A program with lines behind it starts like the program, and goes on where that one ends. -/
theorem ofProgram_append_eq {source more : Text} {qubits : Nat} {lines behind : List Line}
    (hbehind : Line.ofSource (source ++ '\n' :: more) = Line.ofSource source ++ behind)
    (hfind : Declaration.find (Text.byteLength source) (Line.ofSource source) =
      .ok (qubits, lines)) :
    ofProgram (source ++ '\n' :: more) =
      ((State.initial qubits).run (lines.map Pending.ofLine) >>= fun s =>
        s.run (behind.map Pending.ofLine)) >>= fun t => t.draft.finish := by
  have hfound : Declaration.find (Text.byteLength (source ++ '\n' :: more))
      (Line.ofSource (source ++ '\n' :: more)) = .ok (qubits, lines ++ behind) := by
    rw [hbehind]
    exact Declaration.find_append.1 qubits lines hfind
  rw [ofProgram_of_find hfound, List.map_append, State.run_append]

/-- **More lines behind a program extend its circuit**: what is in the circuit stays there, but for
the end of the last subroutine, and the rest lies behind its columns. An error of the program stays
the error, unless it is one of a subroutine that might have gone on. -/
theorem ofProgram_append (source more : Text) :
    (∀ m m', ofProgram source = .ok m → ofProgram (source ++ '\n' :: more) = .ok m' →
      m.GrowsTo m') ∧
    (∀ e, ofProgram source = .error e → 1 ≤ e.line →
      (∀ cause, e.fault ≠ .malformedSubroutine cause) →
      ofProgram (source ++ '\n' :: more) = .error e) := by
  obtain ⟨behind, hbehind⟩ := Line.ofSource_append source more
  constructor
  · intro m m' hm hm'
    obtain ⟨s, hs, hfinish⟩ := reaches_of_ofProgram hm
    have hdense := hs.dense
    have hfills := hdense.fills
    rw [State.columnsInUse_of_hold hs.hold_eq_zero] at hfills
    obtain ⟨qubits, lines, hfind, hsteps⟩ := hs
    rw [ofProgram_append_eq hbehind hfind, State.run_eq_of_steps hsteps, State.run_nil] at hm'
    obtain ⟨t, ht, hfinish'⟩ := bind_eq_ok.1 hm'
    exact growsTo_of_extends hfills ((State.steps_of_run ht).extends hdense.qubits.1) hfinish
      hfinish'
  · intro e he hline hfault
    cases hfind : Declaration.find (Text.byteLength source) (Line.ofSource source) with
    | error e' =>
      rw [ofProgram_of_find_error hfind] at he
      cases he
      refine ofProgram_of_find_error ?_
      rw [hbehind]
      exact Declaration.find_append.2 e hfind hline
    | ok found =>
      obtain ⟨qubits, lines⟩ := found
      rw [ofProgram_of_find hfind] at he
      rw [ofProgram_append_eq hbehind hfind]
      cases hrun : (State.initial qubits).run (lines.map Pending.ofLine) with
      | error e' =>
        rw [hrun] at he
        cases he
        rfl
      | ok s =>
        rw [hrun] at he
        obtain ⟨cause, hcause⟩ := malformedSubroutine_of_finish he
        exact absurd hcause (hfault cause)

/-- A subroutine that goes on, and an operand that is no name, with a line behind them. -/
theorem ofProgram_append_subroutine : ∃ m m' e,
    ofProgram "qubits 2\n.a\n h q0".toList = .ok m ∧
    ofProgram ("qubits 2\n.a\n h q0".toList ++ '\n' :: " x q1 | y q0".toList) = .ok m' ∧
    m.GrowsTo m' ∧
    ofProgram "qubits 2\n.a\n h q2".toList = .error e ∧ 1 ≤ e.line ∧
    (∀ cause, e.fault ≠ .malformedSubroutine cause) ∧
    ofProgram ("qubits 2\n.a\n h q2".toList ++ '\n' :: "h".toList) = .error e := by
  have hshort : (ofProgram "qubits 2\n.a\n h q0".toList).toOption.isSome = true := by
    decide +kernel
  have hlong : (ofProgram ("qubits 2\n.a\n h q0".toList ++ '\n' :: " x q1 | y q0".toList)
      ).toOption.isSome = true := by
    decide +kernel
  have hwrong : (match ofProgram "qubits 2\n.a\n h q2".toList with
      | .error ⟨.unresolvedOperand _, 3, _, _⟩ => true
      | _ => false) = true := by
    decide +kernel
  obtain ⟨m, hm⟩ := Option.isSome_iff_exists.1 hshort
  obtain ⟨m', hm'⟩ := Option.isSome_iff_exists.1 hlong
  have hm := toOption_eq_some.1 hm
  have hm' := toOption_eq_some.1 hm'
  split at hwrong
  · rename_i operand text span he
    have hfault : ∀ cause, Fault.unresolvedOperand operand ≠ .malformedSubroutine cause :=
      fun cause h => by cases h
    have hline : 1 ≤ 3 := by decide
    exact ⟨m, m', _, hm, hm', (ofProgram_append _ _).1 m m' hm hm', he, hline, hfault,
      (ofProgram_append _ _).2 _ he hline hfault⟩
  · cases hwrong

end Circuit

end QuantumDiagram
