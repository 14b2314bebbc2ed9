import QuantumDiagram.Program.Draft

/-!
# The state of a running program

Beside the draft, the state holds how many parts of the parallel line at hand are still to come:
they all share one column.
-/

namespace QuantumDiagram

structure State where
  draft : Draft
  /-- The number of parts of the parallel line at hand that are still to be executed. -/
  hold : Nat
  /-- Whether a part of the parallel line at hand has placed a gate. -/
  sharedUsed : Bool

namespace State

/-- The state before the first statement of a program on the given number of qubits. -/
def initial (qubits : Nat) : State := ⟨.initial qubits, 0, false⟩

/-- Moves on from an executed statement. A plain statement that placed a gate ends its column; the
parts of a parallel line end theirs together, if one of them placed a gate. -/
def complete (s : State) (placed : Bool) : State :=
  if 0 < s.hold then
    let used := s.sharedUsed || placed
    { draft := s.draft.advance (s.hold - 1 = 0 && used)
      hold := s.hold - 1
      sharedUsed := used }
  else { s with draft := s.draft.advance placed }

/-- Handles one pending statement: the new state, and the statements that take its place. -/
def process (s : State) (p : Pending) : Except ParseError (State × List Pending) :=
  if Text.isBlank p.text then .ok (s, [])
  else if p.isParallel then
    p.parts.map fun parts => ({ s with hold := parts.length, sharedUsed := false }, parts)
  else
    (s.draft.execute p).map fun (draft, placed) => ({ s with draft }.complete placed, [])

end State

end QuantumDiagram
