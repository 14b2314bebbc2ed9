import QuantumDiagram.Text.Stretch

/-!
# Source lines

A program is read line by line. A line ends at a line feed; a carriage return before it belongs to
the line end, and a comment runs from `#` to the end of the line.
-/

namespace QuantumDiagram

structure Line where
  /-- The position of the line in the program, from one. -/
  number : Nat
  /-- The byte offset of the line in the program. -/
  offset : Nat
  /-- The line without its end. -/
  text : Text
deriving DecidableEq

namespace Line

/-- A line without a carriage return at its end. -/
def dropReturn (t : Text) : Text := if t.getLast? = some '\r' then t.dropLast else t

def ofSource (source : Text) : List Line :=
  (((⟨0, source⟩ : Stretch).split '\n').zipIdx 1).map fun (s, number) =>
    ⟨number, s.offset, dropReturn s.text⟩

/-- The line up to its comment. -/
def uncommented (l : Line) : Stretch := ⟨l.offset, l.text.takeWhile (· ≠ '#')⟩

/-- Whether the line begins with a space or a tab. -/
def isIndented (l : Line) : Bool := l.text.head? = some ' ' || l.text.head? = some '\t'

end Line

end QuantumDiagram
