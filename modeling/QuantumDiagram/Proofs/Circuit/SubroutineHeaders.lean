import Mathlib.Data.List.Forall2
import QuantumDiagram.Proofs.Circuit.SubroutineColumns

/-!
# One subroutine for each header

`Performs` tells which statements a program executes up to a point of its run, in their order, and
`Executes` which it executes in all; there is no choice (`Executes.deterministic`). Each of them
that is a header begins one subroutine, and nothing else does: the subroutines that have begun,
recorded or open, are titled by the headers executed so far (`Draft.execute_titles`,
`State.Performs.titles`). A subroutine ends before the next one begins, and holds at least one
column (`Draft.Ranged`), so the subroutines of a circuit are non-empty ranges of used columns from
left to right (`Circuit.subroutines_ofProgram`).
-/

namespace QuantumDiagram

/-! ## What a header states -/

/-- What the header of a subroutine states: its name and its number of repetitions. -/
def Subroutine.title (r : Subroutine) : Text × Nat := (r.name, r.repetitions)

namespace Pending

instance (p : Pending) : Decidable p.IsHeader :=
  match h : Statement.read p.text with
  | .ok (.header name repetitions) => .isTrue ⟨name, repetitions, h⟩
  | .ok (.instruction _ _) => .isFalse fun ⟨_, _, h'⟩ => by cases h.symm.trans h'
  | .error _ => .isFalse fun ⟨_, _, h'⟩ => by cases h.symm.trans h'

/-- The statement is a header that states the title. -/
def Entitles (p : Pending) (title : Text × Nat) : Prop :=
  ∃ name repetitions, Statement.read p.text = .ok (.header name repetitions) ∧
    name.value = title.1 ∧ Draft.repetitionCount p repetitions = .ok title.2

/-- A header states one repetition or more. -/
theorem Entitles.one_le {p : Pending} {title : Text × Nat} (h : p.Entitles title) :
    1 ≤ title.2 := by
  obtain ⟨_, repetitions, -, -, hcount⟩ := h
  cases repetitions with
  | none => exact Nat.le_of_eq (Except.ok.inj hcount)
  | some x =>
    rw [Draft.repetitionCount] at hcount
    split at hcount
    · rename_i n hn
      have hbounds := (Option.filter_eq_some_iff.1 hn).2
      rw [← Except.ok.inj hcount]
      simp only [decide_eq_true_eq] at hbounds
      exact hbounds.1
    · cases hcount

/-- The statement itself, if it is executed: it is neither blank nor replaced by its parts. -/
def own (p : Pending) : List Pending := if Text.isBlank p.text || p.isParallel then [] else [p]

end Pending

/-! ## The titles of a draft -/

namespace Draft

/-- The titles of the subroutines that have begun. -/
def titles (d : Draft) : List (Text × Nat) :=
  d.subroutines.map Subroutine.title ++ d.opened.toList.map fun o => (o.name, o.repetitions)

theorem titles_subroutinesAt (d : Draft) (stop : Nat) :
    (d.subroutinesAt stop).map Subroutine.title = d.titles := by
  rw [subroutinesAt, titles, List.map_append, List.map_map]
  rfl

theorem closeSubroutine_titles {d e : Draft} (h : d.closeSubroutine = .ok e) :
    e.titles = d.titles := by
  rw [closeSubroutine_eq h, ← titles_subroutinesAt d d.column]
  exact List.append_nil _

theorem leaveSubroutine_titles {d e : Draft} {p : Pending} (h : d.leaveSubroutine p = .ok e) :
    e.titles = d.titles := by
  obtain rfl | hclosed := leaveSubroutine_ok h
  · rfl
  · exact closeSubroutine_titles hclosed

/-- The open subroutine ends, so that the new one comes behind all others. -/
theorem openSubroutine_titles {d f : Draft} {p : Pending} {name : Located Text}
    {repetitions : Option (Located Float)} (h : d.openSubroutine p name repetitions = .ok f) :
    ∃ count, repetitionCount p repetitions = .ok count ∧
      f.titles = d.titles ++ [(name.value, count)] := by
  unfold openSubroutine at h
  obtain ⟨e, he, h⟩ := bind_eq_ok.1 h
  obtain ⟨count, hcount, h⟩ := bind_eq_ok.1 h
  cases h
  refine ⟨count, hcount, ?_⟩
  rw [← closeSubroutine_titles he, closeSubroutine_eq he]
  simp [titles]

/-- **A header adds its title, and no other statement adds or drops one.** -/
theorem execute_titles {d f : Draft} {p : Pending} {placed : Bool}
    (h : d.execute p = .ok (f, placed)) :
    (p.IsHeader ∧ ∃ title, p.Entitles title ∧ f.titles = d.titles ++ [title]) ∨
      (¬p.IsHeader ∧ f.titles = d.titles) := by
  by_cases hp : p.IsHeader
  · refine .inl ⟨hp, ?_⟩
    obtain ⟨name, repetitions, hread⟩ := hp
    obtain ⟨hdisplay, hmodel⟩ := not_skipped_of_header hread
    obtain ⟨h', -⟩ | ⟨e, he, ⟨h', -⟩ | ⟨_, _, hread', hopened, -⟩ | ⟨_, _, hread', -⟩⟩ :=
      execute_cases h
    · rw [hdisplay] at h'
      cases h'
    · exact absurd h' hmodel
    · obtain ⟨count, hcount, htitles⟩ := openSubroutine_titles hopened
      rw [leaveSubroutine_titles he] at htitles
      exact ⟨_, ⟨_, _, hread', rfl, hcount⟩, htitles⟩
    · rw [hread] at hread'
      cases hread'
  · refine .inr ⟨hp, ?_⟩
    obtain ⟨-, rfl, -⟩ | ⟨e, he, hcases⟩ := execute_cases h
    · rfl
    · rw [← leaveSubroutine_titles he]
      obtain ⟨-, rfl, -⟩ | ⟨name, repetitions, hread, -⟩ | ⟨_, _, -, hinstruct⟩ := hcases
      · rfl
      · exact absurd ⟨name, repetitions, hread⟩ hp
      · obtain ⟨hopened, hsubroutines⟩ := instruct_frame hinstruct
        rw [titles, titles, hopened, hsubroutines]

/-! ## The ranges of a draft -/

/-- The recorded subroutines are ranges of columns from left to right, none of them empty, and the
open one begins behind them. -/
structure Ranged (d : Draft) : Prop where
  ordered : d.Ordered
  nonempty : ∀ r ∈ d.subroutines, r.start < r.stop
  apart : d.subroutines.Pairwise fun r t => r.stop ≤ t.start
  opened : ∀ o, d.opened = some o → ∀ r ∈ d.subroutines, r.stop ≤ o.start

theorem ranged_initial (qubits : Nat) : (initial qubits).Ranged where
  ordered := ordered_initial qubits
  nonempty r hr := by cases hr
  apart := .nil
  opened o ho := by cases ho

theorem Ranged.closed {d e : Draft} (hd : d.Ranged) (h : d.closeSubroutine = .ok e) :
    e.Ranged := by
  have hordered := hd.ordered.closed h
  obtain ⟨-, rfl⟩ | ⟨o, ho, hne, rfl⟩ := closeSubroutine_ok h
  · exact hd
  · have hstart : o.start < d.column := Nat.lt_of_le_of_ne (hd.ordered.opened o ho) hne
    refine ⟨hordered, fun r hr => ?_, ?_, fun _ h => by cases h⟩
    · rcases List.mem_append.1 hr with hr | hr
      · exact hd.nonempty r hr
      · obtain rfl := List.mem_singleton.1 hr
        exact hstart
    · refine List.pairwise_append.2 ⟨hd.apart, List.pairwise_singleton _ _, fun r hr t ht => ?_⟩
      obtain rfl := List.mem_singleton.1 ht
      exact hd.opened o ho r hr

theorem invariant_ranged : Invariant Ranged where
  closed hd h := hd.closed h
  effect hsized hd heffect := by
    have hordered := invariant_ordered.effect hsized hd.ordered heffect
    cases heffect with
    | nothing => exact hd
    | @header e o hclosed hstart =>
      have he := hd.closed hclosed
      refine ⟨hordered, he.nonempty, he.apart, fun o' ho' r hr => ?_⟩
      cases ho'
      rw [hstart, ← (closeSubroutine_frame hclosed).2.2.2]
      exact he.ordered.recorded r hr
    | naming _ => exact ⟨hordered, hd.nonempty, hd.apart, hd.opened⟩
    | gates hplaced =>
      obtain ⟨is, g, -, -, rfl⟩ := hplaced
      exact ⟨hordered, hd.nonempty, hd.apart, hd.opened⟩
  advanced hd := ⟨invariant_ordered.advanced hd.ordered, hd.nonempty, hd.apart, hd.opened⟩

end Draft

/-! ## Through a run -/

namespace State

/-- `Performs s work performed t rest`: from `s` with `work` to do, the run executes the statements
`performed`, in this order, and gets to `t` with `rest` to do. -/
inductive Performs : State → List Pending → List Pending → State → List Pending → Prop
  | refl {s : State} {work : List Pending} : Performs s work [] s work
  | step {s t u : State} {p : Pending} {parts work performed rest : List Pending}
      (head : s.process p = .ok (t, parts)) (tail : Performs t (parts ++ work) performed u rest) :
      Performs s (p :: work) (p.own ++ performed) u rest

theorem exists_performs {s t : State} {work : List Pending} (h : s.run work = .ok t) :
    ∃ performed, Performs s work performed t [] := by
  fun_induction run s work with
  | case1 s =>
    cases h
    exact ⟨[], .refl⟩
  | case2 => cases h
  | case3 s p work u parts hp ih =>
    obtain ⟨performed, htail⟩ := ih h
    exact ⟨_, .step hp htail⟩

/-- A run that leaves nothing to do has no choice. -/
theorem Performs.deterministic {s t t' : State} {work performed performed' : List Pending}
    (h : Performs s work performed t []) (h' : Performs s work performed' t' []) :
    performed = performed' ∧ t = t' := by
  generalize hrest : [] = rest at h
  induction h generalizing performed' t' with
  | refl =>
    subst hrest
    cases h'
    exact ⟨rfl, rfl⟩
  | step head _ ih =>
    cases h' with
    | step head' tail' =>
      rw [head] at head'
      obtain ⟨rfl, rfl⟩ := Prod.mk.inj (Except.ok.inj head')
      obtain ⟨rfl, rfl⟩ := ih tail' hrest
      exact ⟨rfl, rfl⟩

theorem titles_complete (s : State) (placed : Bool) :
    (s.complete placed).draft.titles = s.draft.titles := by
  obtain ⟨used, hused⟩ := draft_complete s placed
  rw [hused]
  rfl

/-- The titles that a run adds are those of the headers that it executes. -/
theorem Performs.titles {s t : State} {work performed rest : List Pending}
    (h : Performs s work performed t rest) :
    ∃ added, t.draft.titles = s.draft.titles ++ added ∧
      List.Forall₂ Pending.Entitles (performed.filter (·.IsHeader)) added := by
  induction h with
  | refl => exact ⟨[], (List.append_nil _).symm, .nil⟩
  | @step s t u p parts work performed rest head _ ih =>
    obtain ⟨added, htitles, hadded⟩ := ih
    by_cases hblank : Text.isBlank p.text = true
    · rw [process_of_isBlank hblank] at head
      cases head
      exact ⟨added, htitles, by simpa [Pending.own, hblank] using hadded⟩
    obtain ⟨hb, -⟩ | ⟨hpar, -, rfl⟩ | ⟨hplain, -, -, d, placed, hd, rfl⟩ := process_ok head
    · exact absurd hb hblank
    · exact ⟨added, htitles, by simpa [Pending.own, hpar] using hadded⟩
    · rw [titles_complete] at htitles
      have hown : p.own = [p] := by simp [Pending.own, hblank, hplain]
      rw [hown, List.singleton_append]
      obtain ⟨hp, title, htitle, hmore⟩ | ⟨hp, hsame⟩ := Draft.execute_titles hd
      · refine ⟨title :: added, ?_, ?_⟩
        · rw [htitles, hmore, List.append_assoc, List.singleton_append]
        · rw [List.filter_cons_of_pos (by simpa using hp)]
          exact .cons htitle hadded
      · refine ⟨added, by rw [htitles, hsame], ?_⟩
        rwa [List.filter_cons_of_neg (by simpa using hp)]

end State

/-- The run of a program executes the statements `performed`, in this order, and gets to `s` with
the statements `rest` still to do. -/
def Performs (source : Text) (performed : List Pending) (s : State) (rest : List Pending) : Prop :=
  ∃ qubits lines,
    Declaration.find (Text.byteLength source) (Line.ofSource source) = .ok (qubits, lines) ∧
      State.Performs (.initial qubits) (lines.map Pending.ofLine) performed s rest

/-- The run of a program executes the statements `executed`, in this order, and ends in `s`. -/
def Executes (source : Text) (executed : List Pending) (s : State) : Prop :=
  Performs source executed s []

theorem Executes.deterministic {source : Text} {executed executed' : List Pending} {s s' : State}
    (h : Executes source executed s) (h' : Executes source executed' s') :
    executed = executed' ∧ s = s' := by
  obtain ⟨qubits, lines, hfind, hrun⟩ := h
  obtain ⟨qubits', lines', hfind', hrun'⟩ := h'
  rw [hfind] at hfind'
  obtain ⟨rfl, rfl⟩ := Prod.mk.inj (Except.ok.inj hfind')
  exact hrun.deterministic hrun'

namespace Circuit

/-- A circuit is finished from the draft that the run ends with, after it has executed the program's
statements. -/
theorem executes_of_ofProgram {source : Text} {m : Circuit} (h : ofProgram source = .ok m) :
    ∃ executed s, Executes source executed s ∧ s.draft.finish = .ok m := by
  cases hfind : Declaration.find (Text.byteLength source) (Line.ofSource source) with
  | error e =>
    rw [ofProgram_of_find_error hfind] at h
    cases h
  | ok found =>
    obtain ⟨qubits, lines⟩ := found
    rw [ofProgram_of_find hfind] at h
    obtain ⟨s, hs, h⟩ := bind_eq_ok.1 h
    obtain ⟨executed, hexecuted⟩ := State.exists_performs hs
    exact ⟨executed, s, ⟨qubits, lines, hfind, hexecuted⟩, h⟩

/-- The subroutines of a circuit are titled by the headers that its program executes. -/
theorem entitled_of_finish {source : Text} {executed : List Pending} {s : State} {m : Circuit}
    (h : Executes source executed s) (hfinish : s.draft.finish = .ok m) :
    List.Forall₂ (fun p r => p.Entitles r.title) (executed.filter (·.IsHeader)) m.subroutines := by
  obtain ⟨qubits, lines, -, hrun⟩ := h
  obtain ⟨added, htitles, hadded⟩ := hrun.titles
  have hall : m.subroutines.map Subroutine.title = added := by
    rw [(Draft.finish_frame hfinish).2.2, Draft.titles_subroutinesAt, htitles]
    rfl
  rwa [← hall, List.forall₂_map_right_iff] at hadded

/-- A circuit comes from a draft whose subroutines are in order, and whose column is the number of
columns of the circuit. -/
theorem ranged_ofProgram {source : Text} {m : Circuit} (h : ofProgram source = .ok m) :
    ∃ d : Draft, d.Ranged ∧ d.circuit = m ∧ d.column = m.columns := by
  obtain ⟨s, hs, hfinish⟩ := reaches_of_ofProgram h
  have hranged := (hs.invariant Draft.invariant_ranged fun n _ => Draft.ranged_initial n).2
  have hfills := hs.dense.fills
  rw [State.columnsInUse_of_hold hs.hold_eq_zero] at hfills
  have hcolumns := (Draft.columns_finish hfills hfinish).2
  obtain ⟨d, hd, rfl⟩ := map_eq_ok.1 hfinish
  exact ⟨d, hranged.closed hd, rfl, (Draft.closeSubroutine_frame hd).2.2.2.trans hcolumns.symm⟩

theorem bounds_of_mem_subroutines {source : Text} {m : Circuit} (h : ofProgram source = .ok m)
    {r : Subroutine} (hr : r ∈ m.subroutines) : r.start < r.stop ∧ r.stop ≤ m.columns := by
  obtain ⟨d, hranged, rfl, hcolumn⟩ := ranged_ofProgram h
  exact ⟨hranged.nonempty r hr, hcolumn ▸ hranged.ordered.recorded r hr⟩

/-- **One subroutine for each header.** The subroutines of a circuit are titled by the headers that
its program executes, one for each and in their order. Each has one repetition or more and is a
non-empty range of columns that all hold a cell, and it ends before the next one begins. -/
theorem subroutines_ofProgram {source : Text} {m : Circuit} (h : ofProgram source = .ok m) :
    (∃ executed s, Executes source executed s ∧ s.draft.finish = .ok m ∧
      List.Forall₂ (fun p r => p.Entitles r.title) (executed.filter (·.IsHeader)) m.subroutines) ∧
    (∀ r ∈ m.subroutines, 1 ≤ r.repetitions ∧ r.start < r.stop ∧ r.stop ≤ m.columns ∧
      ∀ k, r.Covers k → ∃ c i, m.grid.get? c k = some i) ∧
    m.subroutines.Pairwise fun r t => r.stop ≤ t.start ∧ ∀ k, ¬(r.Covers k ∧ t.Covers k) := by
  obtain ⟨executed, s, hexecuted, hfinish⟩ := executes_of_ofProgram h
  have htitled := entitled_of_finish hexecuted hfinish
  refine ⟨⟨executed, s, hexecuted, hfinish, htitled⟩, fun r hr => ?_, ?_⟩
  · obtain ⟨hstart, hstop⟩ := bounds_of_mem_subroutines h hr
    have hcounts : List.Forall₂ (fun r _ => 1 ≤ r.repetitions ∧ True) m.subroutines _ :=
      (htitled.imp fun _ _ hp => ⟨hp.one_le, trivial⟩).flip
    refine ⟨((List.forall₂_and_left _ _).1 hcounts).1 r hr, hstart, hstop, fun k hk => ?_⟩
    exact (fillsTo_ofProgram h k).2 (Nat.lt_of_lt_of_le hk.2 hstop)
  · obtain ⟨d, hranged, rfl, -⟩ := ranged_ofProgram h
    refine hranged.apart.imp fun hle => ⟨hle, fun k hk => ?_⟩
    exact Nat.lt_irrefl k (Nat.lt_of_lt_of_le hk.1.2 (Nat.le_trans hle hk.2.1))

/-- Subroutines that end at a header in a parallel line, at a skipped directive, and with the
program. -/
theorem subroutines_three :
    let source :=
      "qubits 2\n.a(3)\n h q0\n x q0 | .b | y q1\nerror_model\n .c\n \x7bh q0\x7d".toList
    ∃ m, ofProgram source = .ok m ∧
      m.subroutines = [⟨"a".toList, 3, 0, 1⟩, ⟨"b".toList, 1, 1, 2⟩, ⟨"c".toList, 1, 2, 3⟩] ∧
      ∃ executed s, Executes source executed s ∧ s.draft.finish = .ok m ∧
        List.Forall₂ (fun p r => p.Entitles r.title) (executed.filter (·.IsHeader))
          m.subroutines := by
  intro source
  have h : (ofProgram source).toOption.map subroutines =
      some [⟨"a".toList, 3, 0, 1⟩, ⟨"b".toList, 1, 1, 2⟩, ⟨"c".toList, 1, 2, 3⟩] := by
    decide +kernel
  obtain ⟨m, hm, hsubroutines⟩ := Option.map_eq_some_iff.1 h
  have hm := toOption_eq_some.1 hm
  exact ⟨m, hm, hsubroutines, (subroutines_ofProgram hm).1⟩

end Circuit

end QuantumDiagram
