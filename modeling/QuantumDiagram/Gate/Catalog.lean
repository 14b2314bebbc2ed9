import QuantumDiagram.Decimal.Digits
import QuantumDiagram.Gate

/-!
# The catalog of keywords

Every keyword that a statement may begin with, with the number of its operands, the way its channels
relate and the way its control is found.
-/

namespace QuantumDiagram

inductive Arity where
  | exactly (count : Nat)
  | atLeast (count : Nat)
deriving DecidableEq, Repr

namespace Arity

def accepts : Arity → Nat → Bool
  | exactly n, count => count = n
  | atLeast n, count => n ≤ count

def text : Arity → Text
  | exactly n => "exactly ".toList ++ Decimal.natural n
  | atLeast n => "at least ".toList ++ Decimal.natural n

end Arity

inductive Role where
  | singleChannel
  | multiChannel
  | classicalControlled
  /-- Names a channel and takes no cell. -/
  | declaration
deriving DecidableEq, Repr

inductive Control where
  /-- A control, if there is one, is a qubit. -/
  | quantum
  /-- Classical exactly when the first operand is a classical bit. -/
  | byFirstOperand
  /-- Classical, whatever the operands are. -/
  | classical
deriving DecidableEq, Repr

namespace Catalog

structure Entry where
  keyword : Text
  gate : Gate
  arity : Arity
  role : Role
  control : Control
deriving DecidableEq

def entries : List Entry :=
  [⟨"h", .h, .exactly 1, .singleChannel, .quantum⟩,
    ⟨"x", .x, .exactly 1, .singleChannel, .quantum⟩,
    ⟨"y", .y, .exactly 1, .singleChannel, .quantum⟩,
    ⟨"z", .z, .exactly 1, .singleChannel, .quantum⟩,
    ⟨"rx", .rx, .exactly 2, .singleChannel, .quantum⟩,
    ⟨"ry", .ry, .exactly 2, .singleChannel, .quantum⟩,
    ⟨"rz", .rz, .exactly 2, .singleChannel, .quantum⟩,
    ⟨"s", .s, .exactly 1, .singleChannel, .quantum⟩,
    ⟨"ph", .ph, .exactly 1, .singleChannel, .quantum⟩,
    ⟨"t", .t, .exactly 1, .singleChannel, .quantum⟩,
    ⟨"tdag", .tdag, .exactly 1, .singleChannel, .quantum⟩,
    ⟨"not", .not, .exactly 1, .singleChannel, .quantum⟩,
    ⟨"prepz", .prepz, .exactly 1, .singleChannel, .quantum⟩,
    ⟨"measure", .measure, .atLeast 0, .singleChannel, .quantum⟩,
    ⟨"cnot", .cnot, .exactly 2, .multiChannel, .quantum⟩,
    ⟨"cx", .cx, .atLeast 2, .multiChannel, .byFirstOperand⟩,
    ⟨"cz", .cz, .atLeast 2, .multiChannel, .byFirstOperand⟩,
    ⟨"toffoli", .toffoli, .exactly 3, .multiChannel, .quantum⟩,
    ⟨"swap", .swap, .exactly 2, .multiChannel, .quantum⟩,
    ⟨"cphase", .cphase, .exactly 2, .multiChannel, .quantum⟩,
    ⟨"cr", .cr, .exactly 2, .multiChannel, .quantum⟩,
    ⟨"c-x", .cx, .atLeast 2, .classicalControlled, .classical⟩,
    ⟨"c-z", .cz, .atLeast 2, .classicalControlled, .classical⟩,
    ⟨"map", .map, .exactly 2, .declaration, .quantum⟩]

/-- The entry of a keyword, which must be written in small letters. -/
def lookup? (keyword : Text) : Option Entry := entries.find? (·.keyword = keyword)

end Catalog

end QuantumDiagram
