import QuantumDiagram.Proofs.Program.Growth
import QuantumDiagram.Proofs.Program.OpenSubroutine

/-!
# The columns of subroutines

The column of a gate belongs to the subroutine that is open when the line of the gate ends
(`Circuit.covers_gate_iff`). For a gate on a line of its own that is the subroutine in which the
gate was executed. For a part of a parallel line it is so just if no later part is a header: the
column of the line stays the current one until all its parts are executed, so a header among them
ends the open subroutine before that column and begins the next one in it.
-/

namespace QuantumDiagram

/-- Whether a column is one of the subroutine's. -/
def Subroutine.Covers (s : Subroutine) (column : Nat) : Prop := s.start ≤ column ∧ column < s.stop

namespace Draft

/-- The position that the open subroutine will have among the recorded ones. -/
def openIndex? (d : Draft) : Option Nat := d.opened.map fun _ => d.subroutines.length

theorem openIndex?_of_begun_lt {d e : Draft} (h : d.begun < e.begun) (he : e.opened.isSome = true) :
    ∃ j, e.openIndex? = some j ∧ d.openIndex? ≠ some j := by
  obtain ⟨o, ho⟩ := Option.isSome_iff_exists.1 he
  refine ⟨e.subroutines.length, by simp [openIndex?, ho], fun hd => ?_⟩
  obtain ⟨o', ho', hlength⟩ := Option.map_eq_some_iff.1 hd
  simp only [begun, ho, ho', Option.toList_some, List.length_singleton] at h
  omega

/-! ## The order of subroutines -/

/-- The recorded subroutines end before the current column, and the open one does not begin behind
it. -/
structure Ordered (d : Draft) : Prop where
  recorded : ∀ s ∈ d.subroutines, s.stop ≤ d.column
  opened : ∀ o, d.opened = some o → o.start ≤ d.column

theorem ordered_initial (qubits : Nat) : (initial qubits).Ordered where
  recorded s hs := by cases hs
  opened o ho := by cases ho

theorem Ordered.closed {d e : Draft} (hd : d.Ordered) (h : d.closeSubroutine = .ok e) :
    e.Ordered := by
  obtain ⟨-, rfl⟩ | ⟨o, -, -, rfl⟩ := closeSubroutine_ok h
  · exact hd
  · refine ⟨fun s hs => ?_, fun _ ho => by cases ho⟩
    rcases List.mem_append.1 hs with hs | hs
    · exact hd.recorded s hs
    · obtain rfl := List.mem_singleton.1 hs
      exact Nat.le_refl _

theorem invariant_ordered : Invariant Ordered where
  closed hd h := hd.closed h
  effect _ hd heffect := by
    cases heffect with
    | nothing => exact hd
    | header hclosed hstart =>
      refine ⟨(hd.closed hclosed).recorded, fun o ho => ?_⟩
      cases ho
      rw [hstart]
      exact Nat.le_of_eq (closeSubroutine_frame hclosed).2.2.2.symm
    | naming _ => exact ⟨hd.recorded, hd.opened⟩
    | gates hplaced =>
      obtain ⟨is, g, -, -, rfl⟩ := hplaced
      exact ⟨hd.recorded, hd.opened⟩
  advanced {d used} hd := by
    have hle : d.column ≤ (d.advance used).column := by
      unfold advance
      split <;> simp
    exact ⟨fun s hs => Nat.le_trans (hd.recorded s hs) hle,
      fun o ho => Nat.le_trans (hd.opened o ho) hle⟩

/-- Of the subroutines that follow from a draft, the one that is open there is the only one that
covers the current column, if it ends later and all others begin later. -/
theorem Ordered.covers_iff {d : Draft} (hd : d.Ordered) {stop : Nat} (hstop : d.column < stop)
    {later : List Subroutine} (hlater : ∀ s ∈ later, d.column < s.start) {j : Nat} {s : Subroutine}
    (h : (d.subroutinesAt stop ++ later)[j]? = some s) :
    s.Covers d.column ↔ d.openIndex? = some j := by
  unfold subroutinesAt at h
  rw [List.append_assoc] at h
  by_cases hrecorded : j < d.subroutines.length
  · -- It has ended before the column.
    rw [List.getElem?_append_left hrecorded] at h
    have hended := hd.recorded s (List.mem_of_getElem? h)
    refine iff_of_false (fun hcovers => Nat.not_lt.2 hended hcovers.2) fun hopen => ?_
    obtain ⟨-, -, rfl⟩ := Option.map_eq_some_iff.1 hopen
    exact Nat.lt_irrefl _ hrecorded
  · rw [List.getElem?_append_right (Nat.not_lt.1 hrecorded)] at h
    have hbehind (hmem : s ∈ later) (hne : d.openIndex? ≠ some j) :
        s.Covers d.column ↔ d.openIndex? = some j :=
      iff_of_false (fun hcovers => Nat.not_le.2 (hlater s hmem) hcovers.1) hne
    cases hopened : d.opened with
    | none =>
      rw [hopened] at h
      exact hbehind (List.mem_of_getElem? h) (by simp [openIndex?, hopened])
    | some o =>
      rw [hopened] at h
      by_cases hj : j = d.subroutines.length
      · subst hj
        simp only [Nat.sub_self] at h
        cases h
        exact iff_of_true ⟨hd.opened o hopened, hstop⟩ (by simp [openIndex?, hopened])
      · obtain ⟨n, hn⟩ : ∃ n, j - d.subroutines.length = n + 1 :=
          ⟨j - d.subroutines.length - 1, by omega⟩
        rw [hn] at h
        refine hbehind (List.mem_of_getElem? (i := n) h) ?_
        simp [openIndex?, hopened, Ne.symm hj]

/-! ## The parts of a line -/

theorem executeAll_cons_ok {d f : Draft} {p : Pending} {ps : List Pending} {placed : Bool} :
    d.executeAll d.column (p :: ps) = .ok (f, placed) ↔
      ∃ e first more, d.execute p = .ok (e, first) ∧ e.executeAll e.column ps = .ok (f, more) ∧
        placed = (first || more) := by
  constructor
  · intro h
    obtain ⟨⟨e, first⟩, he, h⟩ := bind_eq_ok.1 h
    obtain ⟨⟨f, more⟩, hf, h⟩ := bind_eq_ok.1 h
    cases h
    have he : d.execute p = .ok (e, first) := he
    refine ⟨e, first, more, he, ?_, rfl⟩
    rw [execute_column he]
    exact hf
  · rintro ⟨e, first, more, he, hf, rfl⟩
    rw [execute_column he] at hf
    exact bind_eq_ok.2 ⟨(e, first), he, bind_eq_ok.2 ⟨(f, more), hf, rfl⟩⟩

/-- What every statement keeps, statements keep together. -/
theorem executeAll_keeps {P : Draft → Prop} {d f : Draft} {ps : List Pending} {placed : Bool}
    (step : ∀ p ∈ ps, ∀ {d f placed}, P d → d.execute p = .ok (f, placed) → P f) (hd : P d)
    (h : d.executeAll d.column ps = .ok (f, placed)) : P f := by
  induction ps generalizing d placed with
  | nil =>
    cases h
    exact hd
  | cons p ps ih =>
    obtain ⟨e, first, more, he, hf, -⟩ := executeAll_cons_ok.1 h
    exact ih (fun q hq => step q (List.mem_cons_of_mem _ hq)) (step p List.mem_cons_self hd he) hf

theorem Invariant.executeAll {P : Draft → Prop} (hP : Invariant P) {d f : Draft}
    {ps : List Pending} {placed : Bool} (hd : d.Sized ∧ P d)
    (h : d.executeAll d.column ps = .ok (f, placed)) : f.Sized ∧ P f :=
  executeAll_keeps (P := fun d => d.Sized ∧ P d) (fun _ _ _ _ _ hd h => hP.execute hd h) hd h

/-- Without a header, the open subroutine stays open. -/
theorem executeAll_of_no_header {d f : Draft} {ps : List Pending} {placed : Bool}
    (h : d.executeAll d.column ps = .ok (f, placed)) (hps : ∀ p ∈ ps, ¬ p.IsHeader)
    (hstay : (∀ p ∈ ps, p.indented = true) ∨ d.opened = none) : f.openIndex? = d.openIndex? := by
  obtain ⟨hopened, hsubroutines⟩ := executeAll_keeps
    (P := fun e => e.opened = d.opened ∧ e.subroutines = d.subroutines)
    (fun p hp e f _ he hf => by
      obtain ⟨hopened, hsubroutines⟩ := execute_of_not_header hf (hps p hp)
        (hstay.imp (· p hp) he.1.trans)
      exact ⟨hopened.trans he.1, hsubroutines.trans he.2⟩) ⟨rfl, rfl⟩ h
  rw [openIndex?, openIndex?, hopened, hsubroutines]

/-- A header opens a subroutine, which the rest of the line does not end. -/
theorem executeAll_of_header {d f : Draft} {ps : List Pending} {placed : Bool}
    (h : d.executeAll d.column ps = .ok (f, placed)) (hps : ∃ p ∈ ps, p.IsHeader) :
    d.begun < f.begun ∧ f.opened.isSome = true := by
  induction ps generalizing d placed with
  | nil =>
    obtain ⟨p, hp, -⟩ := hps
    cases hp
  | cons p ps ih =>
    obtain ⟨e, first, more, he, hf, -⟩ := executeAll_cons_ok.1 h
    by_cases hp : p.IsHeader
    · obtain ⟨hbegun, o, ho, hstart⟩ := execute_of_header he hp
      -- The new subroutine begins in the column of the line, so no part can end it.
      obtain ⟨hopened, hsubroutines, -⟩ := executeAll_keeps
        (P := fun g => g.opened = some o ∧ g.subroutines = e.subroutines ∧ g.column = d.column)
        (fun q _ g i _ hg hi => by
          obtain ⟨hopened, hsubroutines⟩ := execute_of_fresh hi hg.1 (hstart.trans hg.2.2.symm)
          exact ⟨hopened, hsubroutines.trans hg.2.1, (execute_column hi).trans hg.2.2⟩)
        ⟨ho, rfl, execute_column he⟩ hf
      have hsame : f.begun = e.begun := by rw [begun, begun, hopened, ho, hsubroutines]
      exact ⟨by omega, by rw [hopened]; rfl⟩
    · have hlater : ∃ q ∈ ps, q.IsHeader := by
        obtain ⟨q, hq, hheader⟩ := hps
        rcases List.mem_cons.1 hq with rfl | hq
        · exact absurd hheader hp
        · exact ⟨q, hq, hheader⟩
      obtain ⟨hbegun, hopened⟩ := ih hf hlater
      exact ⟨Nat.lt_of_le_of_lt (begun_le_execute he) hbegun, hopened⟩

end Draft

/-! ## To the end of a line -/

namespace State

/-- The parts of a line are indented as it is. -/
theorem Queued.indented_eq {s : State} {p : Pending} {rest : List Pending}
    (hs : s.Queued (p :: rest)) : ∀ q ∈ rest.take (s.hold - 1), q.indented = p.indented := by
  intro q hq
  obtain ⟨n, hn⟩ : ∃ n, s.hold = n + 1 := by
    cases hhold : s.hold with
    | zero =>
      rw [hhold] at hq
      cases hq
    | succ n => exact ⟨n, rfl⟩
  obtain ⟨line, done, -, hparts⟩ := hs.parts (by omega)
  rw [hn, List.take_succ_cons] at hparts
  rw [hn, Nat.add_sub_cancel] at hq
  have hmem (x : Pending) (hx : x ∈ p :: rest.take n) : x.indented = line.indented := by
    obtain ⟨_, -, rfl⟩ := Pending.of_mem_parts hparts (List.mem_append_right done hx)
    rfl
  rw [hmem q (List.mem_cons_of_mem _ hq), hmem p List.mem_cons_self]

/-- The parts that are still to come are executed in one column, which ends with them if it is
used. -/
theorem Queued.steps_parts {s u : State} {work : List Pending} (hs : s.Queued work)
    (hpos : 0 < s.hold) (h : Steps s work u []) :
    ∃ f t placed, s.draft.executeAll s.draft.column (work.take s.hold) = .ok (f, placed) ∧
      t.draft = f.advance (s.sharedUsed || placed) ∧ t.hold = 0 ∧
      Steps s work t (work.drop s.hold) ∧ Steps t (work.drop s.hold) u [] := by
  obtain ⟨d, hold, used⟩ := s
  obtain ⟨n, rfl⟩ := Nat.exists_eq_add_one.2 hpos
  induction n generalizing d used work with
  | zero =>
    cases h with
    | refl => exact absurd hs.enough (by simp)
    | step head tail =>
      obtain ⟨rfl, e, placed, he, rfl⟩ := hs.process_part hpos head
      refine ⟨e, _, placed, ?_, rfl, rfl, .step head .refl, tail⟩
      exact Draft.executeAll_cons_ok.2 ⟨e, placed, false, he, rfl, (Bool.or_false placed).symm⟩
  | succ n ih =>
    cases h with
    | refl => exact absurd hs.enough (by simp)
    | step head tail =>
      have hqueue := hs.process head
      obtain ⟨rfl, e, placed, he, rfl⟩ := hs.process_part hpos head
      rw [complete_more] at hqueue tail head
      obtain ⟨f, t, more, hf, ht, hhold, hsteps, hrest⟩ := ih e _ hqueue (Nat.succ_pos n) tail
      refine ⟨f, t, placed || more, ?_, ?_, hhold, .step head hsteps, hrest⟩
      · exact Draft.executeAll_cons_ok.2 ⟨e, placed, more, he, hf, rfl⟩
      · rw [ht, Bool.or_assoc]

/-- The statement `p` places a gate: it is executed in the draft `d`, and gives the draft `e`. -/
structure ExecutesGate (s : State) (p : Pending) (d e : Draft) : Prop where
  visible : Text.isBlank p.text = false
  plain : p.isParallel = false
  left : s.draft.leaveSubroutine p = .ok d
  executed : s.draft.execute p = .ok (e, true)

section ExecutesGate

variable {s : State} {p : Pending} {d e : Draft}

/-- A gate is placed by an instruction. -/
theorem ExecutesGate.instructs (hp : s.ExecutesGate p d e) :
    ∃ keyword operands, Statement.read p.text = .ok (.instruction keyword operands) ∧
      d.instruct p keyword operands = .ok (e, true) := by
  obtain ⟨-, -, h⟩ | ⟨d', hd', hcases⟩ := Draft.execute_cases hp.executed
  · cases h
  · rw [hp.left] at hd'
    cases hd'
    obtain ⟨-, -, h⟩ | ⟨_, _, -, -, h⟩ | hinstructs := hcases
    · cases h
    · cases h
    · exact hinstructs

theorem ExecutesGate.frame (hp : s.ExecutesGate p d e) :
    e.opened = d.opened ∧ e.subroutines = d.subroutines := by
  obtain ⟨_, _, -, hinstruct⟩ := hp.instructs
  exact Draft.instruct_frame hinstruct

/-- A gate on a line that is not indented is in no subroutine. -/
theorem ExecutesGate.stays (hp : s.ExecutesGate p d e) :
    p.indented = true ∨ d.opened = none := by
  obtain ⟨-, hdot | hindented⟩ | ⟨-, hnone, -⟩ := Draft.leaveSubroutine_cases hp.left
  · obtain ⟨_, _, hread, -⟩ := hp.instructs
    obtain ⟨_, _, h⟩ := Draft.header_of_startsWith hread hdot
    cases h
  · exact .inl hindented
  · exact .inr hnone

/-- The column of a gate ends with the other parts of its line. -/
theorem ExecutesGate.steps_line (hp : s.ExecutesGate p d e) {u : State} {rest : List Pending}
    (hs : s.Queued (p :: rest)) (h : Steps s (p :: rest) u []) :
    ∃ f t placed, e.executeAll e.column (rest.take (s.hold - 1)) = .ok (f, placed) ∧
      t.draft = f.advance true ∧ t.hold = 0 ∧ Steps s (p :: rest) t (rest.drop (s.hold - 1)) ∧
      Steps t (rest.drop (s.hold - 1)) u [] := by
  have head : s.process p = .ok (complete { s with draft := e } true, []) := by
    rw [process_of_plain hp.visible hp.plain, hp.executed]
    rfl
  cases h with
  | step head' tail =>
    rw [head] at head'
    cases head'
    have hqueue := hs.process head
    obtain ⟨d₀, hold, used⟩ := s
    match hold with
    | 0 => exact ⟨e, _, false, rfl, rfl, rfl, .step head .refl, tail⟩
    | 1 => exact ⟨e, _, false, rfl, by simp [complete_last], rfl, .step head .refl, tail⟩
    | n + 2 =>
      rw [complete_more] at hqueue tail head
      obtain ⟨f, t, placed, hf, ht, hhold, hsteps, hrest⟩ :=
        hqueue.steps_parts (Nat.succ_pos n) tail
      exact ⟨f, t, placed, hf, by simpa using ht, hhold, .step head hsteps, hrest⟩

end ExecutesGate

end State

namespace Circuit

/-- The open subroutine is recorded at its position, with the name and the start that it has. -/
theorem recorded_of_extends {m : Circuit} {d u : Draft} (h : d.Extends u)
    (hfinish : u.finish = .ok m) {o : OpenSubroutine} (ho : d.opened = some o) :
    ∃ stop, m.subroutines[d.subroutines.length]? =
      some ⟨o.name, o.repetitions, o.start, stop⟩ := by
  obtain ⟨stop, later, -, hsubroutines, -⟩ := h.follows.subroutinesAt h.column
  refine ⟨stop, ?_⟩
  rw [(Draft.finish_frame hfinish).2.2, hsubroutines]
  simp [Draft.subroutinesAt, ho]

/-- The subroutine that is open when a used column ends is the one that covers the column. -/
theorem openIndex?_of_extends {m : Circuit} {f u : Draft} (hf : f.Ordered)
    (h : (f.advance true).Extends u) (hfinish : u.finish = .ok m) (j : Nat) :
    f.openIndex? = some j ↔ ∃ r, m.subroutines[j]? = some r ∧ r.Covers f.column := by
  obtain ⟨stop, later, hstop, hsubroutines, hlater⟩ := h.follows.subroutinesAt h.column
  have hall : m.subroutines = f.subroutinesAt stop ++ later :=
    (Draft.finish_frame hfinish).2.2.trans hsubroutines
  constructor
  · intro hj
    obtain ⟨o, ho, rfl⟩ := Option.map_eq_some_iff.1 hj
    obtain ⟨last, hr⟩ := recorded_of_extends h hfinish (o := o) ho
    exact ⟨_, hr, (hf.covers_iff hstop hlater (hall ▸ hr)).2 hj⟩
  · rintro ⟨r, hr, hcovers⟩
    exact (hf.covers_iff hstop hlater (hall ▸ hr)).1 hcovers

/-- **The columns of subroutines.** The instructions that a gate puts into the circuit are in the
current column, and the subroutine that is open for the gate is recorded at its position. The column
belongs to the subroutine that is open when the line of the gate ends; it belongs to the one that is
open for the gate just if no later part of the line is a header. -/
theorem covers_gate_iff {source : Text} {m : Circuit} (h : ofProgram source = .ok m) {s : State}
    {p : Pending} {rest : List Pending} {d e : Draft} (hs : Reaches source s (p :: rest))
    (hp : s.ExecutesGate p d e) :
    (∀ c k i, e.grid.get? c k = some i → m.grid.get? c k = some i ∧
      (s.draft.grid.get? c k = some i ∨ k = s.draft.column)) ∧
    (∀ o, d.opened = some o → ∃ stop, m.subroutines[d.subroutines.length]? =
      some ⟨o.name, o.repetitions, o.start, stop⟩) ∧
    (∃ t, Reaches source t (rest.drop (s.hold - 1)) ∧ t.hold = 0 ∧
      t.draft.column = s.draft.column + 1 ∧ ∀ j, t.draft.openIndex? = some j ↔
        ∃ r, m.subroutines[j]? = some r ∧ r.Covers s.draft.column) ∧
    ((∀ j r, m.subroutines[j]? = some r →
        (r.Covers s.draft.column ↔ d.openIndex? = some j)) ↔
      ∀ q ∈ rest.take (s.hold - 1), ¬ q.IsHeader) := by
  obtain ⟨u, hu, hfinish⟩ := hs.finishes h
  obtain ⟨f, t, placed, hf, ht, hhold, hsteps, hrest⟩ := hp.steps_line hs.queued hu
  obtain ⟨hopened, hsubroutines⟩ := hp.frame
  have he : e.Sized ∧ e.Ordered := Draft.invariant_ordered.execute
    (hs.invariant Draft.invariant_ordered fun n _ => Draft.ordered_initial n) hp.executed
  have hordered : f.Sized ∧ f.Ordered := Draft.invariant_ordered.executeAll he hf
  have hparts : e.Extends f := ((Draft.invariant_extends e).executeAll ⟨he.1, .refl e⟩ hf).2
  have hend : e.Extends t.draft := ht ▸ (Draft.invariant_extends e).advanced hparts
  have hsized : t.draft.Sized := ht ▸ hordered.1
  have hall : e.Extends u.draft := ((Draft.invariant_extends e).steps hrest ⟨hsized, hend⟩).2
  have hcolumn : f.column = s.draft.column :=
    (Draft.executeAll_column rfl hf).trans (Draft.execute_column hp.executed)
  have hindex := hcolumn ▸
    openIndex?_of_extends hordered.2 (ht ▸ hrest.extends hsized) hfinish
  refine ⟨fun c k i hi => ⟨?_, ?_⟩, fun o ho => ?_, ⟨t, hs.steps hsteps, hhold, ?_, ?_⟩, ?_, ?_⟩
  · rw [(Draft.finish_frame hfinish).2.1]
    exact hall.kept hi
  · exact ((Draft.execute_grid hp.executed).2 hi).symm.imp id And.right
  · rw [← hsubroutines]
    exact recorded_of_extends hall hfinish (hopened.trans ho)
  · rw [ht, ← hcolumn]
    rfl
  · rw [ht]
    exact hindex
  · intro hclaim q hq hheader
    -- The header opens a subroutine that covers the column and was not open for the gate.
    have hbegun : d.begun = e.begun := by rw [Draft.begun, Draft.begun, hopened, hsubroutines]
    obtain ⟨hlt, hlater⟩ := Draft.executeAll_of_header hf ⟨q, hq, hheader⟩
    obtain ⟨j, hj, hne⟩ := Draft.openIndex?_of_begun_lt (hbegun ▸ hlt) hlater
    obtain ⟨r, hr, hcovers⟩ := (hindex j).1 hj
    exact hne ((hclaim j r hr).1 hcovers)
  · intro hnone j r hr
    have hstay : (∀ q ∈ rest.take (s.hold - 1), q.indented = true) ∨ e.opened = none :=
      hp.stays.imp (fun hindented q hq => (hs.queued.indented_eq q hq).trans hindented)
        hopened.trans
    have hsame : d.openIndex? = f.openIndex? := by
      rw [Draft.executeAll_of_no_header hf hnone hstay, Draft.openIndex?, Draft.openIndex?,
        hopened, hsubroutines]
    rw [hsame, hindex j, hr]
    simp

/-- The column of a gate before a header in its line belongs to the subroutine of the header. -/
theorem covers_gate_before_header :
    let source := "qubits 1\nh q0 | .a\n x q0".toList
    let l : Line := ⟨2, 9, "h q0 | .a".toList⟩
    let p : Pending := ⟨⟨9, "h q0 ".toList⟩, l, false⟩
    let header : Pending := ⟨⟨15, " .a".toList⟩, l, false⟩
    let later := [Pending.ofLine ⟨3, 19, " x q0".toList⟩]
    let s : State := ⟨.initial 1, 2, false⟩
    ∃ m e, ofProgram source = .ok m ∧ Reaches source s (p :: header :: later) ∧
      s.ExecutesGate p (.initial 1) e ∧ header.IsHeader ∧
      ¬ ∀ j r, m.subroutines[j]? = some r →
        (r.Covers 0 ↔ (Draft.initial 1).openIndex? = some j) := by
  intro source l p header later s
  have hsome : (ofProgram source).toOption.isSome = true := by decide +kernel
  obtain ⟨m, hm⟩ := Option.isSome_iff_exists.1 hsome
  have hm : ofProgram source = .ok m := toOption_eq_some.1 hm
  have hfind : Declaration.find (Text.byteLength source) (Line.ofSource source) =
      .ok (1, [l, ⟨3, 19, " x q0".toList⟩]) := toOption_eq_some.1 (by decide +kernel)
  have hparts : (Pending.ofLine l).parts = .ok [p, header] :=
    toOption_eq_some.1 (by decide +kernel)
  have hstep : (State.initial 1).process (Pending.ofLine l) = .ok (s, [p, header]) := by
    rw [State.process_of_isParallel (by decide), hparts]
    rfl
  have hs : Reaches source s (p :: header :: later) := ⟨1, _, hfind, .step hstep .refl⟩
  have hplaced : ((Draft.initial 1).execute p).toOption.map Prod.snd = some true := by
    decide +kernel
  obtain ⟨⟨e, placed⟩, he, rfl⟩ := Option.map_eq_some_iff.1 hplaced
  have hp : s.ExecutesGate p (.initial 1) e :=
    ⟨by decide, by decide, rfl, toOption_eq_some.1 he⟩
  have hread : (match Statement.read header.text with
      | .ok (.header _ _) => true
      | _ => false) = true := by
    decide +kernel
  have hheader : header.IsHeader := by
    split at hread
    · exact ⟨_, _, ‹_›⟩
    · cases hread
  refine ⟨m, e, hm, hs, hp, hheader, fun hclaim => ?_⟩
  exact (covers_gate_iff hm hs hp).2.2.2.1 hclaim header List.mem_cons_self hheader

end Circuit

end QuantumDiagram
