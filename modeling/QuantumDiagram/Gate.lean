import QuantumDiagram.Text

/-!
# Gates

The closed set of instructions that a circuit is made of, each with its keyword and with the label
that is drawn inside its box.
-/

namespace QuantumDiagram

/-- The kinds of instruction. `map` names a channel, all others are drawn. -/
inductive Gate where
  | h | x | y | z
  | rx | ry | rz
  | s | ph | t | tdag
  | not | prepz | measure
  | cnot | cx | cz | toffoli | swap | cphase | cr
  | map
deriving DecidableEq, Repr

namespace Gate

def all : List Gate :=
  [h, x, y, z, rx, ry, rz, s, ph, t, tdag, not, prepz, measure, cnot, cx, cz, toffoli, swap, cphase,
    cr, map]

/-- The keyword of the kind, in small letters. -/
def name : Gate → Text
  | h => "h"
  | x => "x"
  | y => "y"
  | z => "z"
  | rx => "rx"
  | ry => "ry"
  | rz => "rz"
  | s => "s"
  | ph => "ph"
  | t => "t"
  | tdag => "tdag"
  | not => "not"
  | prepz => "prepz"
  | measure => "measure"
  | cnot => "cnot"
  | cx => "cx"
  | cz => "cz"
  | toffoli => "toffoli"
  | swap => "swap"
  | cphase => "cphase"
  | cr => "cr"
  | map => "map"

/-- The keyword of the kind when a classical bit controls it: `c-` takes the place of the letters
`c` that the plain keyword begins with. -/
def controlledName (g : Gate) : Text := "c-".toList ++ g.name.dropWhile (· = 'c')

def takesAngle : Gate → Bool
  | rx => true
  | ry => true
  | rz => true
  | _ => false

def label : Gate → Text
  | h => "H"
  | x => "X"
  | cx => "X"
  | y => "Y"
  | z => "Z"
  | cz => "Z"
  | rx => "Rx"
  | ry => "Ry"
  | rz => "Rz"
  | s => "S"
  | ph => "S"
  | t => "T"
  | tdag => "T^"
  | prepz => "|0>"
  | measure => "M"
  | g => g.name

end Gate

end QuantumDiagram
