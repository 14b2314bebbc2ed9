import QuantumDiagram.Proofs.Program.Effect

/-!
# Invariants of a run

`State.Steps` is the run as a relation between what is reached and what is still to do. A property
of drafts that effects and the step to the next column keep (`Draft.Invariant`) holds of the draft
that a program ends with (`Circuit.ofProgram_ok`).
-/

namespace QuantumDiagram

/-! ## Steps of a run -/

namespace State

/-- The three ways in which a pending statement is handled. -/
theorem process_ok {s t : State} {p : Pending} {parts : List Pending}
    (h : s.process p = .ok (t, parts)) :
    (Text.isBlank p.text = true ∧ t = s ∧ parts = []) ∨
      (p.isParallel = true ∧ p.parts = .ok parts ∧ t = ⟨s.draft, parts.length, false⟩) ∨
      (p.isParallel = false ∧ Text.isBlank p.text = false ∧ parts = [] ∧
        ∃ d placed, s.draft.execute p = .ok (d, placed) ∧
          t = State.complete { s with draft := d } placed) := by
  unfold process at h
  split at h
  · cases h
    exact .inl ⟨‹_›, rfl, rfl⟩
  · rename_i hblank
    split at h
    · obtain ⟨ps, hps, h⟩ := map_eq_ok.1 h
      cases h
      exact .inr (.inl ⟨‹_›, hps, rfl⟩)
    · rename_i hpar
      obtain ⟨⟨d, placed⟩, hd, h⟩ := map_eq_ok.1 h
      cases h
      exact .inr (.inr ⟨by simpa using hpar, by simpa using hblank, rfl, d, placed, hd, rfl⟩)

/-- `Steps s work t rest`: from `s` with `work` to do, the run gets to `t` with `rest` to do. -/
inductive Steps : State → List Pending → State → List Pending → Prop
  | refl {s : State} {work : List Pending} : Steps s work s work
  | step {s t u : State} {p : Pending} {parts work rest : List Pending}
      (head : s.process p = .ok (t, parts)) (tail : Steps t (parts ++ work) u rest) :
      Steps s (p :: work) u rest

theorem steps_of_run {s t : State} {work : List Pending} (h : s.run work = .ok t) :
    Steps s work t [] := by
  fun_induction run s work with
  | case1 s =>
    cases h
    exact .refl
  | case2 => cases h
  | case3 s p work u parts hp ih => exact .step hp (ih h)

/-- The draft of a completed statement is the executed one, perhaps a column further on. -/
theorem draft_complete (s : State) (placed : Bool) :
    ∃ used, (s.complete placed).draft = s.draft.advance used := by
  unfold complete
  split
  · exact ⟨_, rfl⟩
  · exact ⟨placed, rfl⟩

end State

/-! ## Invariants -/

/-- What effects keep and the step to the next column keeps. -/
structure Draft.Invariant (P : Draft → Prop) : Prop where
  closed {d e : Draft} : P d → d.closeSubroutine = .ok e → P e
  effect {d e : Draft} {placed : Bool} : d.Sized → P d → d.Effect e placed → P e
  advanced {d : Draft} {used : Bool} : P d → P (d.advance used)

namespace Draft

theorem sized_initial (qubits : Nat) : (initial qubits).Sized := by simp [Sized, initial]

theorem Effect.sized {d e : Draft} {placed : Bool} (h : d.Effect e placed) (hd : d.Sized) :
    e.Sized := by
  cases h with
  | nothing => exact hd
  | header hclosed _ =>
    obtain ⟨hq, ha, -, -⟩ := closeSubroutine_frame hclosed
    simpa [Sized, hq, ha] using hd
  | naming _ => simpa [Sized, giveName] using hd
  | gates hplaced =>
    obtain ⟨is, g, -, -, rfl⟩ := hplaced
    exact hd

theorem invariant_sized : Invariant Sized where
  closed hd hclosed := by
    obtain ⟨hq, ha, -, -⟩ := closeSubroutine_frame hclosed
    rwa [Sized, hq, ha]
  effect _ hd heffect := heffect.sized hd
  advanced hd := hd

/-- The number of qubits never changes. -/
theorem invariant_qubits (P : Nat → Prop) : Invariant fun d => P d.qubits where
  closed hd hclosed := by rwa [(closeSubroutine_frame hclosed).1]
  effect _ hd heffect := by
    cases heffect with
    | nothing => exact hd
    | header hclosed _ =>
      show P _
      rwa [(closeSubroutine_frame hclosed).1]
    | naming _ => exact hd
    | gates hplaced =>
      obtain ⟨is, g, -, -, rfl⟩ := hplaced
      exact hd
  advanced hd := hd

/-- One statement keeps an invariant. -/
theorem Invariant.execute {P : Draft → Prop} (hP : Invariant P) {d f : Draft} {p : Pending}
    {placed : Bool} (hd : d.Sized ∧ P d) (h : d.execute p = .ok (f, placed)) : f.Sized ∧ P f := by
  obtain ⟨e, hclosed, heffect⟩ := execute_ok h
  obtain ⟨hsized, he⟩ : e.Sized ∧ P e := by
    rcases hclosed with rfl | hclosed
    · exact hd
    · exact ⟨invariant_sized.closed hd.1 hclosed, hP.closed hd.2 hclosed⟩
  exact ⟨heffect.sized hsized, hP.effect hsized he heffect⟩

/-- A whole run keeps an invariant. -/
theorem Invariant.steps {P : Draft → Prop} (hP : Invariant P) {s t : State}
    {work rest : List Pending} (h : State.Steps s work t rest) (hs : s.draft.Sized ∧ P s.draft) :
    t.draft.Sized ∧ P t.draft := by
  -- Only drafts matter: neither the count of parts nor what is still to do occurs in `P`.
  induction h with
  | refl => exact hs
  | step head _ ih =>
    apply ih
    obtain ⟨-, rfl, -⟩ | ⟨-, -, rfl⟩ | ⟨-, -, -, d, placed, hd, rfl⟩ := State.process_ok head
    · exact hs
    · exact hs
    · obtain ⟨hsized, hd⟩ := hP.execute hs hd
      obtain ⟨used, hused⟩ := State.draft_complete ⟨d, _, _⟩ placed
      rw [hused]
      exact ⟨hsized, hP.advanced hd⟩

end Draft

theorem Declaration.find_ok {size qubits : Nat} {lines rest : List Line}
    (h : find size lines = .ok (qubits, rest)) : 1 ≤ qubits ∧ qubits ≤ maxQubits := by
  induction lines with
  | nil => cases h
  | cons l lines ih =>
    rw [find] at h
    split at h
    · split at h
      · rename_i n hn
        cases h
        unfold qubits? at hn
        split at hn
        · simpa using (Option.filter_eq_some_iff.1 hn).2
        · cases hn
      · cases h
    · exact ih h

/-- **A circuit comes from a draft with every invariant** that holds of the empty draft. -/
theorem Circuit.ofProgram_ok {P : Draft → Prop} (hP : Draft.Invariant P)
    (hinitial : ∀ qubits, 1 ≤ qubits → P (.initial qubits)) {source : Text} {m : Circuit}
    (h : ofProgram source = .ok m) :
    ∃ d, d.Sized ∧ P d ∧ m = d.circuit := by
  unfold ofProgram at h
  obtain ⟨⟨qubits, lines⟩, hfind, h⟩ := bind_eq_ok.1 h
  obtain ⟨s, hs, h⟩ := bind_eq_ok.1 h
  obtain ⟨d, hd, rfl⟩ := map_eq_ok.1 h
  have hsP := hP.steps (State.steps_of_run hs)
    ⟨Draft.sized_initial qubits, hinitial qubits (Declaration.find_ok hfind).1⟩
  exact ⟨d, Draft.invariant_sized.closed hsP.1 hd, hP.closed hsP.2 hd, rfl⟩

theorem Circuit.qubits_pos_of_ofProgram {source : Text} {m : Circuit}
    (h : ofProgram source = .ok m) : 0 < m.qubits := by
  obtain ⟨d, -, hd, rfl⟩ := ofProgram_ok (Draft.invariant_qubits (0 < ·)) (fun _ hq => hq) h
  exact hd

end QuantumDiagram
