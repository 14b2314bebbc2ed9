import QuantumDiagram.Proofs.Program.Growth
import QuantumDiagram.Proofs.Program.StatementError

/-!
# What an error blames

All that is still to do in a run stands on a line of the program, and so does the header of the open
subroutine, on a line that is not empty (`State.Sourced`). An error therefore blames a line of the
program and points into it, unless no line declares the qubits (`Circuit.blames_ofProgram`). Only
the error of a statement that is not complete may have a span that is turned around.
-/

namespace QuantumDiagram

/-! ## Lines of a program -/

namespace Line

variable {source : Text} {l : Line}

theorem within_dropReturn (s : Stretch) : (⟨s.offset, dropReturn s.text⟩ : Stretch).Within s := by
  unfold dropReturn
  split
  · obtain ⟨c, hc⟩ := (List.dropLast_prefix s.text)
    exact ⟨[], c, hc.symm, rfl⟩
  · exact Stretch.Within.refl s

theorem exists_of_mem_ofSource (h : l ∈ ofSource source) : ∃ s,
    1 ≤ l.number ∧ ((⟨0, source⟩ : Stretch).split '\n')[l.number - 1]? = some s ∧
      l.stretch = ⟨s.offset, dropReturn s.text⟩ := by
  obtain ⟨⟨s, number⟩, hmem, rfl⟩ := List.mem_map.1 h
  obtain ⟨hpos, hs⟩ := List.mk_mem_zipIdx_iff_le_and_getElem?_sub.1 hmem
  exact ⟨s, hpos, hs, rfl⟩

theorem within_source (h : l ∈ ofSource source) : l.stretch.Within ⟨0, source⟩ := by
  obtain ⟨s, -, hs, hl⟩ := exists_of_mem_ofSource h
  rw [hl]
  exact (within_dropReturn s).trans (Stretch.within_split (List.mem_of_getElem? hs))

end Line

namespace Declaration

/-- The declaration has a word. -/
theorem line_ne_nil {l : Line} (h : isDeclared (Text.words l.uncommented.text) = true) :
    l.text ≠ [] := by
  intro hnil
  have htext : l.uncommented.text = [] := by
    show l.text.takeWhile _ = []
    rw [hnil]
    rfl
  rw [htext] at h
  cases h

theorem find_error {size : Nat} {lines : List Line} {e : ParseError}
    (h : find size lines = .error e) :
    (e = ⟨.missingDeclaration, 0, [], ⟨size, size⟩⟩ ∧
        ∀ l ∈ lines, isDeclared (Text.words l.uncommented.text) = false) ∨
      ∃ l ∈ lines, e.Blames l l.stretch ∧ l.text ≠ [] := by
  induction lines with
  | nil =>
    cases h
    exact .inl ⟨rfl, by simp⟩
  | cons l lines ih =>
    rw [find] at h
    split at h
    · rename_i hdeclared
      split at h
      · cases h
      · cases h
        exact .inr ⟨l, List.mem_cons_self, ParseError.blames_of_marks rfl rfl (by simp) rfl
          (l.uncommented.marks_span.within l.within_uncommented), line_ne_nil hdeclared⟩
    · rename_i hdeclared
      obtain ⟨he, hnone⟩ | ⟨l', hl', hblames⟩ := ih h
      · exact .inl ⟨he, List.forall_mem_cons.2 ⟨by simpa using hdeclared, hnone⟩⟩
      · exact .inr ⟨l', List.mem_cons_of_mem _ hl', hblames⟩

end Declaration

/-! ## Parts of lines -/

namespace Pending

theorem within_afterOpening (s : Stretch) : (afterOpening s).Within s := by
  unfold afterOpening
  split
  · exact (Stretch.within_dropWhile _ _).trans (Stretch.within_dropWhile _ _)
  · exact Stretch.Within.refl s

theorem within_segments {p : Pending} {s : Stretch} (h : s ∈ p.segments) :
    s.Within p.stretch := by
  have hhead : ∀ x ∈ (p.stretch.split '|').modifyHead afterOpening, x.Within p.stretch := by
    intro x hx
    cases hsplit : p.stretch.split '|' with
    | nil =>
      rw [hsplit] at hx
      cases hx
    | cons first rest =>
      have hpart : ∀ y ∈ first :: rest, y.Within p.stretch :=
        fun y hy => Stretch.within_split (hsplit ▸ hy)
      rw [hsplit] at hx
      rcases List.mem_cons.1 hx with rfl | hx
      · exact (within_afterOpening first).trans (hpart first List.mem_cons_self)
      · exact hpart x (List.mem_cons_of_mem _ hx)
  rcases mem_mapLast h with h | ⟨y, hy, rfl⟩
  · exact hhead s h
  · exact (Stretch.within_takeWhile y _).trans (hhead y hy)

theorem parts_error {p : Pending} {e : ParseError} (h : p.parts = .error e) :
    e.Blames p.line p.stretch := by
  unfold parts at h
  split at h
  · rename_i s hs
    cases h
    exact p.blames_error (by simp) rfl (within_segments (List.mem_of_find?_eq_some hs)).marks
  · cases h

/-- The statement stands on a line of the program, before a comment. -/
structure StandsIn (p : Pending) (source : Text) : Prop where
  line : p.line ∈ Line.ofSource source
  within : p.stretch.Within p.line.uncommented

variable {p : Pending} {source : Text}

theorem StandsIn.mark_not_mem (h : p.StandsIn source) : '#' ∉ p.text :=
  fun hmem => p.line.mark_not_mem_uncommented (h.within.subset _ hmem)

theorem StandsIn.within_line (h : p.StandsIn source) : p.stretch.Within p.line.stretch :=
  h.within.trans p.line.within_uncommented

/-- A statement that is not blank stands on a line that is not empty. -/
theorem StandsIn.line_ne_nil (h : p.StandsIn source) (hp : Text.isBlank p.text = false) :
    p.line.text ≠ [] := by
  obtain ⟨c, hc, -⟩ := List.all_eq_false.1 hp
  exact List.ne_nil_of_mem (h.within_line.subset c hc)

end Pending

/-- The header of the subroutine stands on a line of the program, and its span is there. -/
structure OpenSubroutine.StandsIn (o : OpenSubroutine) (source : Text) : Prop where
  line : o.line ∈ Line.ofSource source
  nonempty : o.line.text ≠ []
  marks : ∃ piece, o.line.stretch.Marks o.span piece

theorem OpenSubroutine.StandsIn.blames {o : OpenSubroutine} {source : Text}
    (h : o.StandsIn source) :
    ParseError.Blames ⟨.malformedSubroutine (.noInstructions o.name), o.line.number, o.line.text,
      o.span⟩ o.line o.line.stretch := by
  obtain ⟨piece, hmarks⟩ := h.marks
  exact ParseError.blames_of_marks rfl rfl (by simp) rfl hmarks

/-! ## Through a run -/

namespace State

/-- What is still to do and the open subroutine stand on lines of the program. -/
structure Sourced (source : Text) (s : State) (work : List Pending) : Prop where
  pending : ∀ p ∈ work, p.StandsIn source
  opened : ∀ o, s.draft.opened = some o → o.StandsIn source

variable {source : Text} {s t : State} {p : Pending} {parts rest : List Pending}

theorem Sourced.process (hs : s.Sourced source (p :: rest))
    (h : s.process p = .ok (t, parts)) : t.Sourced source (parts ++ rest) := by
  obtain ⟨hp, hrest⟩ := List.forall_mem_cons.1 hs.pending
  obtain ⟨-, rfl, rfl⟩ | ⟨-, hparts, rfl⟩ | ⟨-, hblank, rfl, d, placed, hd, rfl⟩ := process_ok h
  · exact ⟨hrest, hs.opened⟩
  · refine ⟨fun q hq => ?_, hs.opened⟩
    rcases List.mem_append.1 hq with hq | hq
    · obtain ⟨r, hr, rfl⟩ := Pending.of_mem_parts hparts hq
      exact ⟨hp.line, (Pending.within_segments hr).trans hp.within⟩
    · exact hrest q hq
  · refine ⟨hrest, fun o ho => ?_⟩
    obtain ⟨used, hused⟩ := draft_complete { s with draft := d } placed
    rw [hused] at ho
    obtain hopened | ⟨hline, hspan⟩ := Draft.execute_opened hd ho
    · exact hs.opened o hopened
    · refine ⟨hline ▸ hp.line, hline ▸ hp.line_ne_nil hblank, Text.trim p.text, ?_⟩
      rw [hline, hspan]
      exact p.stretch.marks_span.within hp.within_line

theorem Sourced.closeSubroutine_error {work : List Pending} {e : ParseError}
    (hs : s.Sourced source work) (h : s.draft.closeSubroutine = .error e) :
    ∃ l ∈ Line.ofSource source, e.Blames l l.stretch ∧ l.text ≠ [] := by
  obtain ⟨o, ho, rfl⟩ := Draft.closeSubroutine_error h
  have hstands := hs.opened o ho
  exact ⟨o.line, hstands.line, hstands.blames, hstands.nonempty⟩

/-- An error of a step blames a line of the program. -/
theorem Sourced.process_error {e : ParseError} (hs : s.Sourced source (p :: rest))
    (h : s.process p = .error e) :
    ∃ l ∈ Line.ofSource source, e.Blames l l.stretch ∧ l.text ≠ [] := by
  have hp := hs.pending p List.mem_cons_self
  unfold State.process at h
  split at h
  · cases h
  · rename_i hblank
    have hline := hp.line_ne_nil (by simpa using hblank)
    split at h
    · have hblames := Pending.parts_error (map_eq_error.1 h)
      exact ⟨p.line, hp.line, hblames.within hp.within_line, hline⟩
    · obtain hclosed | hblames := Draft.execute_error hp.mark_not_mem (map_eq_error.1 h)
      · exact hs.closeSubroutine_error hclosed
      · exact ⟨p.line, hp.line, hblames.within hp.within_line, hline⟩

theorem sourced_initial {qubits : Nat} {lines : List Line}
    (h : ∀ l ∈ lines, l ∈ Line.ofSource source) :
    (initial qubits).Sourced source (lines.map Pending.ofLine) where
  pending p hp := by
    obtain ⟨l, hl, rfl⟩ := List.mem_map.1 hp
    exact ⟨h l hl, .refl _⟩
  opened o ho := by cases ho

end State

namespace Circuit

/-- An error blames a line of the program that is not empty, unless no line declares the qubits. -/
theorem blamed_line {source : Text} {e : ParseError} (h : ofProgram source = .error e) :
    (e = ⟨.missingDeclaration, 0, [], ⟨Text.byteLength source, Text.byteLength source⟩⟩ ∧
      ∀ l ∈ Line.ofSource source,
        Declaration.isDeclared (Text.words l.uncommented.text) = false) ∨
    ∃ l ∈ Line.ofSource source, e.Blames l l.stretch ∧ l.text ≠ [] := by
  cases hfind : Declaration.find (Text.byteLength source) (Line.ofSource source) with
  | error e' =>
    rw [ofProgram_of_find_error hfind] at h
    cases h
    exact Declaration.find_error hfind
  | ok found =>
    obtain ⟨qubits, lines⟩ := found
    rw [ofProgram_of_find hfind] at h
    have hinitial : (State.initial qubits).Sourced source (lines.map Pending.ofLine) :=
      State.sourced_initial fun _ hl => (Declaration.find_suffix hfind).subset hl
    obtain hrun | ⟨s, hs, hfinish⟩ := bind_eq_error.1 h
    · obtain ⟨t, p, rest, hsteps, hp⟩ := State.exists_steps_of_run_error hrun
      exact .inr ((hsteps.keeps State.Sourced.process hinitial).process_error hp)
    · have hend := (State.steps_of_run hs).keeps State.Sourced.process hinitial
      exact .inr (hend.closeSubroutine_error (map_eq_error.1 hfinish))

end Circuit

end QuantumDiagram
