import QuantumDiagram.Proofs.Program.Effect
import QuantumDiagram.Proofs.Statement.FirstLexeme

/-!
# The open subroutine

What a statement does to the open subroutine. `Draft.execute_cases` follows a statement through its
execution. A header ends the open subroutine and opens another one (`Draft.execute_of_header`); any
other statement leaves it open if it is indented (`Draft.execute_of_not_header`). A subroutine that
begins in the current column cannot end there, since it would be empty (`Draft.execute_of_fresh`).
-/

namespace QuantumDiagram

/-- Whether the statement is the header of a subroutine. -/
def Pending.IsHeader (p : Pending) : Prop :=
  ∃ name repetitions, Statement.read p.text = .ok (.header name repetitions)

namespace Draft

/-- Executing a statement: it is skipped, or it is handled after the open subroutine has ended, if
it had to. -/
theorem execute_cases {d f : Draft} {p : Pending} {placed : Bool}
    (h : d.execute p = .ok (f, placed)) :
    (Text.startsWith (leadingWord p) "display" = true ∧ f = d ∧ placed = false) ∨
      ∃ e, d.leaveSubroutine p = .ok e ∧
        ((leadingWord p = "error_model".toList ∧ f = e ∧ placed = false) ∨
          (∃ name repetitions, Statement.read p.text = .ok (.header name repetitions) ∧
            e.openSubroutine p name repetitions = .ok f ∧ placed = false) ∨
          ∃ keyword operands, Statement.read p.text = .ok (.instruction keyword operands) ∧
            e.instruct p keyword operands = .ok (f, placed)) := by
  unfold execute at h
  split at h
  · rename_i hdisplay
    cases h
    exact .inl ⟨hdisplay, rfl, rfl⟩
  · obtain ⟨e, he, h⟩ := bind_eq_ok.1 h
    refine .inr ⟨e, he, ?_⟩
    split at h
    · rename_i hmodel
      cases h
      exact .inl ⟨hmodel, rfl, rfl⟩
    · split at h
      · cases h
      · rename_i name repetitions hread
        obtain ⟨f, hf, h⟩ := map_eq_ok.1 h
        cases h
        exact .inr (.inl ⟨name, repetitions, hread, hf, rfl⟩)
      · rename_i keyword operands hread
        exact .inr (.inr ⟨keyword, operands, hread, h⟩)

/-- The open subroutine stays for a header and for an indented statement, and ends for others. -/
theorem leaveSubroutine_cases {d e : Draft} {p : Pending} (h : d.leaveSubroutine p = .ok e) :
    (e = d ∧ (Text.startsWith (leadingWord p) "." = true ∨ p.indented = true)) ∨
      (p.indented = false ∧ e.opened = none ∧ d.closeSubroutine = .ok e) := by
  unfold leaveSubroutine at h
  split at h
  · rename_i hstay
    cases h
    exact .inl ⟨rfl, by simpa using hstay⟩
  · rename_i hleave
    refine .inr ⟨?_, ?_, h⟩
    · simp only [Bool.or_eq_true, not_or, Bool.not_eq_true] at hleave
      exact hleave.2
    · obtain ⟨hnone, rfl⟩ | ⟨-, -, -, rfl⟩ := closeSubroutine_ok h
      · exact hnone
      · rfl

/-- An instruction neither opens nor ends a subroutine. -/
theorem instruct_frame {d e : Draft} {p : Pending} {keyword : Located Text}
    {operands : List (Located Operand)} {placed : Bool}
    (h : d.instruct p keyword operands = .ok (e, placed)) :
    e.opened = d.opened ∧ e.subroutines = d.subroutines := by
  unfold instruct at h
  dsimp only at h
  split at h
  · cases h
    exact ⟨rfl, rfl⟩
  · split at h
    · cases h
    · split at h
      · split at h
        · obtain ⟨e, he, h⟩ := map_eq_ok.1 h
          cases h
          obtain ⟨c, name, -, rfl⟩ := bindAlias_ok he
          exact ⟨rfl, rfl⟩
        · obtain ⟨e, he, h⟩ := map_eq_ok.1 h
          cases h
          obtain ⟨is, g, -, -, rfl⟩ := placeGate_ok he
          exact ⟨rfl, rfl⟩
      · cases h

theorem execute_of_not_header {d f : Draft} {p : Pending} {placed : Bool}
    (h : d.execute p = .ok (f, placed)) (hp : ¬ p.IsHeader)
    (hstay : p.indented = true ∨ d.opened = none) :
    f.opened = d.opened ∧ f.subroutines = d.subroutines := by
  obtain ⟨-, rfl, -⟩ | ⟨e, he, hcases⟩ := execute_cases h
  · exact ⟨rfl, rfl⟩
  · obtain rfl : e = d := by
      obtain ⟨rfl, -⟩ | ⟨hindented, -, hclosed⟩ := leaveSubroutine_cases he
      · rfl
      · have hnone : d.opened = none := by
          rcases hstay with hstay | hnone
          · rw [hindented] at hstay
            cases hstay
          · exact hnone
        obtain ⟨-, rfl⟩ | ⟨o, ho, -⟩ := closeSubroutine_ok hclosed
        · rfl
        · rw [hnone] at ho
          cases ho
    obtain ⟨-, rfl, -⟩ | ⟨name, repetitions, hread, -⟩ | ⟨_, _, -, hinstruct⟩ := hcases
    · exact ⟨rfl, rfl⟩
    · exact absurd ⟨name, repetitions, hread⟩ hp
    · exact instruct_frame hinstruct

theorem execute_of_fresh {d f : Draft} {p : Pending} {placed : Bool} {o : OpenSubroutine}
    (h : d.execute p = .ok (f, placed)) (ho : d.opened = some o) (hstart : o.start = d.column) :
    f.opened = some o ∧ f.subroutines = d.subroutines := by
  have hopen : ∀ e, d.closeSubroutine ≠ .ok e := fun e he => by
    obtain ⟨hnone, -⟩ | ⟨o', ho', hne, -⟩ := closeSubroutine_ok he
    · rw [ho] at hnone
      cases hnone
    · rw [ho] at ho'
      cases ho'
      exact hne hstart
  obtain ⟨-, rfl, -⟩ | ⟨e, he, hcases⟩ := execute_cases h
  · exact ⟨ho, rfl⟩
  · obtain rfl : e = d := by
      obtain rfl | hclosed := leaveSubroutine_ok he
      · rfl
      · exact absurd hclosed (hopen e)
    obtain ⟨-, rfl, -⟩ | ⟨_, _, -, hopened, -⟩ | ⟨_, _, -, hinstruct⟩ := hcases
    · exact ⟨ho, rfl⟩
    · obtain ⟨g, _, hg, -⟩ := openSubroutine_ok hopened
      exact absurd hg (hopen g)
    · obtain ⟨hopened, hsubroutines⟩ := instruct_frame hinstruct
      exact ⟨hopened.trans ho, hsubroutines⟩

/-- A subroutine that a statement opens has its line and span. -/
theorem execute_opened {d f : Draft} {p : Pending} {placed : Bool}
    (h : d.execute p = .ok (f, placed)) {o : OpenSubroutine} (ho : f.opened = some o) :
    d.opened = some o ∨ (o.line = p.line ∧ o.span = p.span) := by
  obtain ⟨-, rfl, -⟩ | ⟨e, he, hcases⟩ := execute_cases h
  · exact .inl ho
  · have hleft : e.opened = some o → d.opened = some o := fun heo => by
      obtain ⟨rfl, -⟩ | ⟨-, hnone, -⟩ := leaveSubroutine_cases he
      · exact heo
      · rw [hnone] at heo
        cases heo
    obtain ⟨-, rfl, -⟩ | ⟨name, repetitions, -, hopened, -⟩ | ⟨_, _, -, hinstruct⟩ := hcases
    · exact .inl (hleft ho)
    · unfold openSubroutine at hopened
      obtain ⟨g, -, hopened⟩ := bind_eq_ok.1 hopened
      obtain ⟨n, -, hopened⟩ := bind_eq_ok.1 hopened
      cases hopened
      cases ho
      exact .inr ⟨rfl, rfl⟩
    · rw [(instruct_frame hinstruct).1] at ho
      exact .inl (hleft ho)

/-! ## The number of subroutines -/

/-- The number of subroutines that have begun. -/
def begun (d : Draft) : Nat := d.subroutines.length + d.opened.toList.length

theorem closeSubroutine_begun {d e : Draft} (h : d.closeSubroutine = .ok e) :
    e.begun = d.begun := by
  obtain ⟨-, rfl⟩ | ⟨o, ho, -, rfl⟩ := closeSubroutine_ok h
  · rfl
  · simp [begun, ho]

theorem leaveSubroutine_begun {d e : Draft} {p : Pending} (h : d.leaveSubroutine p = .ok e) :
    e.begun = d.begun := by
  obtain rfl | hclosed := leaveSubroutine_ok h
  · rfl
  · exact closeSubroutine_begun hclosed

theorem openSubroutine_begun {d f : Draft} {p : Pending} {name : Located Text}
    {repetitions : Option (Located Float)} (h : d.openSubroutine p name repetitions = .ok f) :
    f.begun = d.begun + 1 ∧ ∃ o, f.opened = some o ∧ o.start = d.column := by
  obtain ⟨e, o, he, ho, rfl⟩ := openSubroutine_ok h
  refine ⟨?_, o, rfl, ho⟩
  rw [← closeSubroutine_begun he]
  obtain ⟨hnone, rfl⟩ | ⟨-, -, -, rfl⟩ := closeSubroutine_ok he
  · simp [begun, hnone]
  · simp [begun]

/-- A header opens a subroutine in the current column. -/
theorem execute_of_header {d f : Draft} {p : Pending} {placed : Bool}
    (h : d.execute p = .ok (f, placed)) (hp : p.IsHeader) :
    f.begun = d.begun + 1 ∧ ∃ o, f.opened = some o ∧ o.start = d.column := by
  obtain ⟨name, repetitions, hheader⟩ := hp
  obtain ⟨hdisplay, hmodel⟩ := not_skipped_of_header hheader
  obtain ⟨h', -⟩ | ⟨e, he, ⟨h', -⟩ | ⟨_, _, -, hopened, -⟩ | ⟨_, _, hread, -⟩⟩ := execute_cases h
  · rw [hdisplay] at h'
    cases h'
  · exact absurd h' hmodel
  · obtain ⟨-, -, -, hcolumn⟩ := left_frame (leaveSubroutine_ok he)
    rw [← leaveSubroutine_begun he, ← hcolumn]
    exact openSubroutine_begun hopened
  · rw [hheader] at hread
    cases hread

theorem begun_le_execute {d f : Draft} {p : Pending} {placed : Bool}
    (h : d.execute p = .ok (f, placed)) : d.begun ≤ f.begun := by
  obtain ⟨-, rfl, -⟩ | ⟨e, he, hcases⟩ := execute_cases h
  · exact Nat.le_refl _
  · rw [← leaveSubroutine_begun he]
    obtain ⟨-, rfl, -⟩ | ⟨_, _, -, hopened, -⟩ | ⟨_, _, -, hinstruct⟩ := hcases
    · exact Nat.le_refl _
    · rw [(openSubroutine_begun hopened).1]
      exact Nat.le_succ _
    · obtain ⟨hopened, hsubroutines⟩ := instruct_frame hinstruct
      exact Nat.le_of_eq (by rw [begun, begun, hopened, hsubroutines])

end Draft

end QuantumDiagram
