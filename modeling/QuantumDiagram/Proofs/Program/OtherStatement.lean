import QuantumDiagram.Proofs.Program.GateStatement

/-!
# Statements that are no gate statements

A statement that is no gate statement does not look at the grid: it places no gate, and if it is
refused, then not because a site is taken (`Draft.execute_spares`).
-/

namespace QuantumDiagram

namespace Draft

variable {d e f : Draft} {p : Pending} {err : ParseError}

/-- The keyword of a statement that is no gate statement is `qubits` or `map`, if it is not
skipped. -/
theorem keyword_of_not_isGateStatement (hp : Text.isGateStatement p.text = false)
    (hmark : '#' ∉ p.text) (hdisplay : ¬ Text.startsWith (leadingWord p) "display" = true)
    (hmodel : leadingWord p ≠ "error_model".toList) {keyword : Located Text}
    {operands : List (Located Operand)}
    (hread : Statement.read p.text = .ok (.instruction keyword operands)) :
    Text.lower keyword.value = "qubits".toList ∨ Text.lower keyword.value = Gate.map.name := by
  have hinstruction : Statement.instruction? p.text =
      some (keyword.value, operands.map Located.value) := by
    rw [Statement.instruction?, hread]
  have hword : leadingWord p = Text.lower keyword.value := by
    rw [leadingWord, Statement.firstWord_of_instruction? hmark hinstruction]
  have hcases : (((Text.startsWith (leadingWord p) "." = true ∨
      Text.startsWith (leadingWord p) "display" = true) ∨ leadingWord p = "error_model".toList) ∨
        leadingWord p = "qubits".toList) ∨ leadingWord p = Gate.map.name := by
    simp only [Text.isGateStatement, Bool.not_eq_false', Bool.or_eq_true, decide_eq_true_eq] at hp
    exact hp
  rw [← hword]
  rcases hcases with (((hdot | h) | h) | hqubits) | hmap
  · obtain ⟨_, _, h⟩ := header_of_startsWith hread hdot
    cases h
  · exact absurd h hdisplay
  · exact absurd h hmodel
  · exact .inl hqubits
  · exact .inr hmap

theorem closeSubroutine_takenSite? (h : d.closeSubroutine = .error err) :
    err.fault.takenSite? = none := by
  obtain ⟨o, -, rfl⟩ := closeSubroutine_error h
  rfl

theorem left_takenSite? {indented : Bool} (h : d.left indented = .error err) :
    err.fault.takenSite? = none := by
  unfold left at h
  split at h
  · cases h
  · exact closeSubroutine_takenSite? h

theorem openSubroutine_takenSite? {name : Located Text} {repetitions : Option (Located Float)}
    (h : d.openSubroutine p name repetitions = .error err) : err.fault.takenSite? = none := by
  unfold openSubroutine at h
  obtain hclosed | ⟨_, -, h⟩ := bind_eq_error.1 h
  · exact closeSubroutine_takenSite? hclosed
  · obtain hcount | ⟨_, -, h⟩ := bind_eq_error.1 h
    · unfold repetitionCount at hcount
      split at hcount
      · cases hcount
      · split at hcount
        · cases hcount
        · cases hcount
          rfl
    · cases h

theorem bindAlias_takenSite? {operands : List (Located Operand)}
    (h : d.bindAlias p operands = .error err) : err.fault.takenSite? = none := by
  unfold bindAlias at h
  split at h
  · obtain hc | ⟨c, -, h⟩ := bind_eq_error.1 h
    · rw [resolveBy_error hc]
      rfl
    · split at h
      · cases h
      · cases h
        rfl
  · cases h
    rfl

/-- The outcome of a statement that neither places a gate nor finds a site taken. -/
inductive Spares : Except ParseError (Draft × Bool) → Prop
  | ok (f : Draft) : Spares (.ok (f, false))
  | error {err : ParseError} (other : err.fault.takenSite? = none) : Spares (.error err)

theorem Spares.map {x : Except ParseError Draft}
    (h : ∀ err, x = .error err → err.fault.takenSite? = none) : Spares (x.map (·, false)) := by
  cases x with
  | error err => exact .error (h err rfl)
  | ok f => exact .ok f

theorem instruct_spares {keyword : Located Text} {operands : List (Located Operand)}
    (hkeyword : Text.lower keyword.value = "qubits".toList ∨
      Text.lower keyword.value = Gate.map.name) : Spares (d.instruct p keyword operands) := by
  unfold instruct
  dsimp only
  by_cases hqubits : Text.lower keyword.value = "qubits".toList
  · rw [if_pos hqubits]
    exact .ok d
  · rw [if_neg hqubits]
    have hmap := hkeyword.resolve_left hqubits
    cases hlookup : Catalog.lookup? (Text.lower keyword.value) with
    | none => exact .error rfl
    | some entry =>
      dsimp only
      split
      · rw [(lookup?_declaration hlookup).2 hmap]
        exact .map fun _ => bindAlias_takenSite?
      · exact .error rfl

/-- **A statement that is no gate statement** neither places a gate nor finds a site taken. -/
theorem execute_spares (hp : Text.isGateStatement p.text = false) (hmark : '#' ∉ p.text) :
    Spares (d.execute p) := by
  unfold execute
  by_cases hdisplay : Text.startsWith (leadingWord p) "display" = true
  · rw [if_pos hdisplay]
    exact .ok d
  · rw [if_neg hdisplay]
    cases hleave : d.leaveSubroutine p with
    | error err =>
      unfold leaveSubroutine at hleave
      split at hleave
      · cases hleave
      · exact .error (closeSubroutine_takenSite? hleave)
    | ok e =>
      show Spares (if _ then _ else _)
      by_cases hmodel : leadingWord p = "error_model".toList
      · rw [if_pos hmodel]
        exact .ok e
      · rw [if_neg hmodel]
        cases hread : Statement.read p.text with
        | error err => exact .error rfl
        | ok st =>
          cases st with
          | header name repetitions => exact .map fun _ => openSubroutine_takenSite?
          | instruction keyword operands =>
            exact instruct_spares
              (keyword_of_not_isGateStatement hp hmark hdisplay hmodel hread)

end Draft

end QuantumDiagram
