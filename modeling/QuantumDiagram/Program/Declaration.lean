import QuantumDiagram.Program.Error

/-!
# The declaration of the qubits

The first line whose first word is `qubits` states how many there are; the lines before it are not
looked at.
-/

namespace QuantumDiagram.Declaration

/-- The greatest number of qubits that a program may declare. -/
def maxQubits : Nat := 65536

/-- The number that a word stands for: digits, perhaps after a plus. -/
def readCount? : Text → Option Nat
  | '+' :: digits => Decimal.readNatural? digits
  | digits => Decimal.readNatural? digits

/-- Whether the words of a line make it the declaration. -/
def isDeclared (words : List Text) : Bool := words.head?.any (Text.lower · = "qubits".toList)

/-- The number of qubits that the words of a declaration state. -/
def qubits? : List Text → Option Nat
  | [_, count] => (readCount? count).filter fun n => 1 ≤ n ∧ n ≤ maxQubits
  | _ => none

/-- The number of qubits, and the lines after the declaration. `size` is the byte length of the
whole program. -/
def find (size : Nat) : List Line → Except ParseError (Nat × List Line)
  | [] => .error ⟨.missingDeclaration, 0, [], ⟨size, size⟩⟩
  | l :: rest =>
    let words := Text.words l.uncommented.text
    if isDeclared words then
      match qubits? words with
      | some n => .ok (n, rest)
      | none => .error ⟨.missingDeclaration, l.number, l.text, l.uncommented.span⟩
    else find size rest

end QuantumDiagram.Declaration
