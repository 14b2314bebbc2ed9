import QuantumDiagram.Program.Declaration
import QuantumDiagram.Program.State

/-!
# Running a program

The statements after the declaration are handled one after the other; a parallel line puts its parts
in front of what is still to do. Every step makes the pending statements lighter
(`State.weight_process_lt`), so the run ends with a circuit or with the first error.
-/

namespace QuantumDiagram

namespace State

theorem weight_process_lt {s t : State} {p : Pending} {parts : List Pending}
    (h : s.process p = .ok (t, parts)) : Pending.totalWeight parts < p.weight := by
  have hpos : 0 < p.weight := by
    unfold Pending.weight
    split <;> omega
  unfold process at h
  split at h
  · simp_all
  · split at h
    · rename_i hpar
      cases hparts : p.parts with
      | error e => simp [hparts, Except.map] at h
      | ok ps =>
        simp only [hparts, Except.map, Except.ok.injEq, Prod.mk.injEq] at h
        exact h.2 ▸ Pending.weight_parts_lt hpar hparts
    · cases hexec : s.draft.execute p with
      | error e => simp [hexec, Except.map] at h
      | ok r =>
        simp only [hexec, Except.map, Except.ok.injEq, Prod.mk.injEq] at h
        simp [← h.2, hpos]

/-- Handles pending statements until none is left. -/
def run (s : State) (work : List Pending) : Except ParseError State :=
  match work with
  | [] => .ok s
  | p :: rest =>
    match _h : s.process p with
    | .error e => .error e
    | .ok (t, parts) => t.run (parts ++ rest)
termination_by Pending.totalWeight work
decreasing_by
  have := weight_process_lt _h
  simp only [Pending.totalWeight_append, Pending.totalWeight_cons]
  omega

end State

/-- The circuit that a program describes, or the first error in it. -/
def Circuit.ofProgram (source : Text) : Except ParseError Circuit := do
  let (qubits, lines) ← Declaration.find (Text.byteLength source) (Line.ofSource source)
  let s ← (State.initial qubits).run (lines.map Pending.ofLine)
  s.draft.finish

end QuantumDiagram
