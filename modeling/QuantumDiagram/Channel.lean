import QuantumDiagram.Decimal.Digits

/-!
# Channels

A circuit with `Q` qubits has `2Q` channels: each qubit, and for each qubit the classical bit that
takes the result of measuring it. The rows of a diagram hold the qubits first and then the bits,
each group by index; channels are ordered in the same way (`compare`), and the order is total and
tells different channels apart.
-/

namespace QuantumDiagram

/-- One row of a circuit. -/
inductive Channel where
  | qubit (index : Nat)
  | bit (index : Nat)
deriving DecidableEq, Repr, Hashable, Inhabited

namespace Channel

/-- The position of the channel among those of its kind. -/
def index : Channel → Nat
  | qubit i => i
  | bit i => i

def isClassical : Channel → Bool
  | qubit _ => false
  | bit _ => true

/-- The bit that a qubit is measured into, and the qubit that a bit belongs to. -/
def partner : Channel → Channel
  | qubit i => bit i
  | bit i => qubit i

/-- The row of the channel in a circuit with the given number of qubits. -/
def row (qubits : Nat) : Channel → Nat
  | qubit i => i
  | bit i => qubits + i

/-- The channel in a row of a circuit with the given number of qubits. -/
def ofRow (qubits r : Nat) : Channel := if r < qubits then qubit r else bit (r - qubits)

/-- All channels of a circuit with the given number of qubits, by row. -/
def all (qubits : Nat) : List Channel := (List.range (2 * qubits)).map (ofRow qubits)

/-- The canonical name: a letter for the kind and the index. -/
def text : Channel → Text
  | qubit i => 'q' :: Decimal.natural i
  | bit i => 'b' :: Decimal.natural i

/-- The channel that a canonical name stands for, in a circuit with the given number of qubits. The
index may have leading zeros. -/
def read? (qubits : Nat) : Text → Option Channel
  | 'q' :: digits => ((Decimal.readNatural? digits).filter (· < qubits)).map qubit
  | 'b' :: digits => ((Decimal.readNatural? digits).filter (· < qubits)).map bit
  | _ => none

/-! ## The order of rows -/

/-- The order of the two kinds: qubits come first. -/
def kindRank (c : Channel) : Nat := if c.isClassical then 1 else 0

instance : Ord Channel := ⟨compareLex (compareOn kindRank) (compareOn index)⟩

theorem compare_def (c d : Channel) :
    compare c d = compareLex (compareOn kindRank) (compareOn index) c d := rfl

instance : Std.TransOrd Channel :=
  inferInstanceAs (Std.TransCmp (compareLex (compareOn kindRank) (compareOn index)))

instance : Std.LawfulEqOrd Channel where
  eq_of_compare {c d} h := by
    rw [compare_def, compareLex_eq_eq] at h
    cases c <;> cases d <;> simp_all [compareOn, kindRank, isClassical, index]

end Channel

end QuantumDiagram
