import QuantumDiagram.Proofs.Program.OpenSubroutine
import QuantumDiagram.Proofs.Statement.Spans

/-!
# What the error of a statement blames

An error blames a line (`ParseError.Blames`): it has its number and its text and points into it. It
points to a piece of the line, which is the unknown keyword or the unresolved name that the error
tells of, or it points from the end of an incomplete statement back to the last lexeme
(`ParseError.Points`). `Draft.execute_error` says that an error of a statement blames its line, or
comes from the open subroutine (`Draft.closeSubroutine_error`).
-/

namespace QuantumDiagram

/-- The line in the program. -/
def Line.stretch (l : Line) : Stretch := ⟨l.offset, l.text⟩

theorem Line.within_uncommented (l : Line) : l.uncommented.Within l.stretch :=
  l.stretch.within_takeWhile _

theorem Line.mark_not_mem_uncommented (l : Line) : '#' ∉ l.uncommented.text := by
  intro h
  have := List.all_eq_true.1 List.all_takeWhile '#' h
  simp at this

/-! ## Pointing and blaming -/

/-- The keyword or the operand that a fault tells of. -/
def Fault.quoted? : Fault → Option Text
  | .unknownInstruction keyword => some keyword
  | .unresolvedOperand operand => some operand
  | _ => none

namespace ParseError

/-- What an error points to: a piece of `whole`, or what stands behind the last lexeme of a
statement that is not complete, from its end to its beginning. -/
inductive Points (e : ParseError) (whole : Stretch) : Prop
  | piece {piece : Text} (marks : whole.Marks e.span piece)
      (keyword : ∀ k, e.fault = .unknownInstruction k → piece = k)
      (operand : ∀ o, e.fault = .unresolvedOperand o →
        piece.head?.any Lexeme.isIdentifierStart = true → piece = o)
  | behind {expected : List Expectation} {gaps : Text}
      (fault : e.fault = .malformedStatement (.unreadable (.unexpected none expected)))
      (blank : ∀ c ∈ gaps, Lexeme.isGap c = true)
      (marks : whole.Marks ⟨e.span.stop, e.span.start⟩ gaps)

/-- The error blames the line and points into `whole`. -/
structure Blames (e : ParseError) (l : Line) (whole : Stretch) : Prop where
  line : e.line = l.number
  text : e.text = l.text
  opened : e.fault ≠ .malformedSubroutine .noneOpen
  points : e.Points whole

variable {e : ParseError} {l : Line} {part whole : Stretch}

theorem Points.within (h : e.Points part) (hpart : part.Within whole) : e.Points whole := by
  cases h with
  | piece marks keyword operand => exact .piece (marks.within hpart) keyword operand
  | behind fault blank marks => exact .behind fault blank (marks.within hpart)

/-- An error that tells neither of a keyword nor of an operand may point to any piece. -/
theorem blames_of_marks {piece : Text} (hline : e.line = l.number) (htext : e.text = l.text)
    (hopened : e.fault ≠ .malformedSubroutine .noneOpen) (hquoted : e.fault.quoted? = none)
    (h : whole.Marks e.span piece) : e.Blames l whole := by
  refine ⟨hline, htext, hopened, .piece h (fun k hk => ?_) fun o ho => ?_⟩
  · rw [hk] at hquoted
    cases hquoted
  · rw [ho] at hquoted
    cases hquoted

theorem Blames.within (h : e.Blames l part) (hpart : part.Within whole) : e.Blames l whole :=
  { h with points := h.points.within hpart }

end ParseError

namespace Pending

/-- A span in the text of a statement is moved to where the statement stands. -/
theorem marks_locate {p : Pending} {s : Span} {piece : Text}
    (h : (⟨0, p.text⟩ : Stretch).Marks s piece) : p.stretch.Marks (p.locate s) piece :=
  h.shift p.stretch.offset

theorem blames_error {p : Pending} {fault : Fault} {span : Span} {piece : Text}
    (hopened : fault ≠ .malformedSubroutine .noneOpen) (hquoted : fault.quoted? = none)
    (h : p.stretch.Marks span piece) : (p.error fault span).Blames p.line p.stretch :=
  ParseError.blames_of_marks rfl rfl hopened hquoted h

/-- The span of each operand marks what the operand was read from. -/
def Locates (p : Pending) (operands : List (Located Operand)) : Prop :=
  ∀ operand ∈ operands, ∃ piece, p.stretch.Marks (p.locate operand.span) piece ∧
    operand.value.SpelledBy piece

theorem locates_of_read {p : Pending} {keyword : Located Text} {operands : List (Located Operand)}
    (h : Statement.read p.text = .ok (.instruction keyword operands)) : p.Locates operands := by
  intro operand hmem
  obtain ⟨piece, hmarks, hspelled⟩ := Statement.marks_operand h operand hmem
  exact ⟨piece, marks_locate hmarks, hspelled⟩

end Pending

namespace Draft

variable {d : Draft} {p : Pending} {e : ParseError}

/-! ## Operands -/

theorem blames_unresolved {operands : List (Located Operand)} (hp : p.Locates operands)
    {operand : Located Operand} (hmem : operand ∈ operands) :
    (unresolved p operand).Blames p.line p.stretch := by
  obtain ⟨piece, hmarks, hspelled⟩ := hp operand hmem
  refine ⟨rfl, rfl, by simp [unresolved, Pending.error],
    .piece hmarks (fun k hk => by cases hk) fun o ho hname => ?_⟩
  cases ho
  exact (hspelled.text_eq hname).symm

theorem resolveBy_error {find : Text → Option Channel} {operand : Located Operand}
    (h : resolveBy find p operand = .error e) : e = unresolved p operand := by
  unfold resolveBy at h
  split at h
  · rename_i n _
    cases hn : find n with
    | none =>
      rw [hn] at h
      cases h
      rfl
    | some c =>
      rw [hn] at h
      cases h
  · cases h
    rfl

theorem bindAlias_error {operands : List (Located Operand)} (hp : p.Locates operands)
    (h : d.bindAlias p operands = .error e) : e.Blames p.line p.stretch := by
  unfold bindAlias at h
  split at h
  · rename_i target given
    obtain hc | ⟨c, -, h⟩ := bind_eq_error.1 h
    · rw [resolveBy_error hc]
      exact blames_unresolved hp List.mem_cons_self
    · split at h
      · cases h
      · cases h
        obtain ⟨piece, hmarks, -⟩ := hp given (by simp)
        exact p.blames_error (by simp) rfl hmarks
  · cases h
    exact p.blames_error (by simp) rfl p.stretch.marks_span

/-! ## Gates -/

theorem occupy_error {i : Instruction} (h : d.occupy p i = .error e) :
    e.Blames p.line p.stretch := by
  unfold occupy at h
  split at h
  · cases h
    exact p.blames_error (by simp) rfl p.stretch.marks_span
  · cases h

theorem measure_error {operands : List (Channel × Span)}
    (hp : ∀ o ∈ operands, ∃ piece, p.stretch.Marks (p.locate o.2) piece)
    (h : d.measure p operands = .error e) : e.Blames p.line p.stretch := by
  unfold measure at h
  obtain hnamed | ⟨named, -, h⟩ := bind_eq_error.1 h
  · obtain ⟨o, ho, h⟩ := exists_of_mapM_error hnamed
    unfold measuredIndex at h
    split at h
    · cases h
    · cases h
      obtain ⟨piece, hmarks⟩ := hp o ho
      exact p.blames_error (by simp) rfl hmarks
  · obtain ⟨f, index, -, h⟩ := exists_of_foldlM_error h
    exact occupy_error h

theorem splitAngle_error {gate : Gate} {operands : List (Located Operand)}
    (hp : p.Locates operands) (h : splitAngle p gate operands = .error e) :
    e.Blames p.line p.stretch := by
  unfold splitAngle at h
  split at h
  · split at h
    · cases h
    · rename_i last hlast
      split at h
      · cases h
      · cases h
        exact blames_unresolved hp (List.mem_of_getLast? hlast)
  · cases h

theorem splitAngle_subset {gate : Gate} {operands rest : List (Located Operand)}
    {angle : Option Float} (h : splitAngle p gate operands = .ok (angle, rest)) :
    ∀ operand ∈ rest, operand ∈ operands := by
  unfold splitAngle at h
  split at h
  · split at h
    · cases h
      exact fun _ hmem => hmem
    · split at h
      · cases h
        exact fun _ hmem => List.dropLast_subset _ hmem
      · cases h
  · cases h
    exact fun _ hmem => hmem

theorem placeGate_error {entry : Catalog.Entry} {operands : List (Located Operand)}
    (hp : p.Locates operands) (h : d.placeGate p entry operands = .error e) :
    e.Blames p.line p.stretch := by
  unfold placeGate at h
  obtain hangle | ⟨⟨angle, rest⟩, hangle, h⟩ := bind_eq_error.1 h
  · exact splitAngle_error hp hangle
  · have hrest : p.Locates rest := fun o ho => hp o (splitAngle_subset hangle o ho)
    obtain hchannels | ⟨channels, -, h⟩ := bind_eq_error.1 h
    · obtain ⟨operand, hmem, h⟩ := exists_of_mapM_error hchannels
      rw [resolveBy_error h]
      exact blames_unresolved hrest hmem
    · split at h
      · refine measure_error (fun o ho => ?_) h
        obtain ⟨operand, hmem, hspan⟩ := List.mem_map.1 (List.of_mem_zip ho).2
        obtain ⟨piece, hmarks, -⟩ := hrest operand hmem
        exact ⟨piece, hspan ▸ hmarks⟩
      · exact occupy_error h

/-! ## Statements -/

theorem instruct_error {keyword : Located Text} {operands : List (Located Operand)}
    (hkeyword : p.stretch.Marks (p.locate keyword.span) keyword.value) (hp : p.Locates operands)
    (h : d.instruct p keyword operands = .error e) : e.Blames p.line p.stretch := by
  unfold instruct at h
  dsimp only at h
  split at h
  · cases h
  · split at h
    · cases h
      refine ⟨rfl, rfl, by simp [Pending.error],
        .piece hkeyword (fun k hk => ?_) fun o ho => by cases ho⟩
      cases hk
      rfl
    · split at h
      · split at h
        · exact bindAlias_error hp (map_eq_error.1 h)
        · exact placeGate_error hp (map_eq_error.1 h)
      · cases h
        exact p.blames_error (by simp) rfl p.stretch.marks_span

/-- A subroutine that cannot end is empty, and its header is to blame. -/
theorem closeSubroutine_error (h : d.closeSubroutine = .error e) : ∃ o, d.opened = some o ∧
    e = ⟨.malformedSubroutine (.noInstructions o.name), o.line.number, o.line.text, o.span⟩ := by
  unfold closeSubroutine at h
  split at h
  · rename_i hopen
    unfold recordSubroutine at h
    split at h
    · rename_i hnone
      rw [hnone] at hopen
      cases hopen
    · rename_i o ho
      split at h
      · cases h
        exact ⟨o, ho, rfl⟩
      · cases h
  · cases h

theorem openSubroutine_error {name : Located Text} {repetitions : Option (Located Float)}
    (hp : ∀ x, repetitions = some x → ∃ piece, p.stretch.Marks (p.locate x.span) piece)
    (h : d.openSubroutine p name repetitions = .error e) :
    d.closeSubroutine = .error e ∨ e.Blames p.line p.stretch := by
  unfold openSubroutine at h
  obtain hclosed | ⟨f, -, h⟩ := bind_eq_error.1 h
  · exact .inl hclosed
  · obtain hcount | ⟨n, -, h⟩ := bind_eq_error.1 h
    · unfold repetitionCount at hcount
      split at hcount
      · cases hcount
      · split at hcount
        · cases hcount
        · cases hcount
          obtain ⟨piece, hmarks⟩ := hp _ rfl
          exact .inr (p.blames_error (by simp) rfl hmarks)
    · cases h

/-- **An error of a statement blames its line**, or the header of the open subroutine, which was
to end. -/
theorem execute_error (hmark : '#' ∉ p.text) (h : d.execute p = .error e) :
    d.closeSubroutine = .error e ∨ e.Blames p.line p.stretch := by
  unfold execute at h
  split at h
  · cases h
  · obtain hleave | ⟨f, hleave, h⟩ := bind_eq_error.1 h
    · unfold leaveSubroutine at hleave
      split at hleave
      · cases hleave
      · exact .inl hleave
    · split at h
      · cases h
      · split at h
        · rename_i s hread
          cases h
          obtain ⟨piece, hmarks⟩ | ⟨expected, gaps, hvalue, hgaps, hmarks⟩ :=
            Statement.marks_of_read_error hmark hread
          · exact .inr (p.blames_error (by simp) rfl (Pending.marks_locate hmarks))
          · have hfault := congrArg (fun v => Fault.malformedStatement (.unreadable v)) hvalue
            exact .inr ⟨rfl, rfl, by simp [Pending.error],
              .behind hfault hgaps (Pending.marks_locate hmarks)⟩
        · rename_i name repetitions hread
          obtain hclosed | hblames := openSubroutine_error (fun x hx => by
            subst hx
            obtain ⟨piece, hmarks⟩ := Statement.marks_repetitions hread
            exact ⟨piece, Pending.marks_locate hmarks⟩) (map_eq_error.1 h)
          · -- If the open subroutine has ended already, there is none to end.
            obtain ⟨rfl, -⟩ | ⟨-, hnone, -⟩ := leaveSubroutine_cases hleave
            · exact .inl hclosed
            · obtain ⟨o, ho, -⟩ := closeSubroutine_error hclosed
              rw [hnone] at ho
              cases ho
          · exact .inr hblames
        · rename_i keyword operands hread
          exact .inr (instruct_error (Pending.marks_locate (Statement.marks_keyword hread))
            (Pending.locates_of_read hread) h)

end Draft

end QuantumDiagram
