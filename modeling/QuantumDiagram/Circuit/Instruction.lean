import QuantumDiagram.Channel.Set
import QuantumDiagram.Gate.Catalog

/-!
# Instructions and glyphs

An instruction is a gate applied to channels in one column of a circuit. Each of its participants
shows a glyph of it (`Instruction.glyphAt`).
-/

namespace QuantumDiagram

/-- What is drawn in one cell. -/
inductive Glyph where
  /-- A rectangle around a label; a square one if asked for. -/
  | box (label : Text) (square : Bool)
  /-- The filled dot of a control. -/
  | dot
  /-- The crossed circle of a controlled negation. -/
  | target
  /-- One end of an exchange. -/
  | cross
  /-- The meter on a measured qubit. -/
  | meter
deriving DecidableEq, Repr

/-- Whether the size of the glyph is set by a radius and not by a text. -/
def Glyph.isNode : Glyph → Bool
  | dot => true
  | target => true
  | cross => true
  | _ => false

structure Instruction where
  gate : Gate
  /-- Whether a classical bit controls the gate. -/
  classicalControl : Bool
  /-- The channels in the order in which they were written. -/
  operands : List Channel
  column : Nat
  /-- The channels that show a cell of the instruction. -/
  participants : ChannelSet
  angle : Option Float

namespace Instruction

/-- The keyword form, which tells classical control apart. -/
def name (i : Instruction) : Text :=
  if i.classicalControl then i.gate.controlledName else i.gate.name

/-- How the cells relate. A single cell relates to no other. -/
def role (i : Instruction) : Role :=
  if i.participants.size < 2 then .singleChannel
  else if i.classicalControl then .classicalControlled
  else .multiChannel

/-- Whether the cells are linked by a double line. -/
def isClassicalLink (i : Instruction) : Bool :=
  i.classicalControl || i.participants.any Channel.isClassical

/-- The glyph in the cell of `c`. Under classical control the topmost participant shows the gate and
the others the control; of the other gates with a target, the last operand is the target. -/
def glyphAt (i : Instruction) (c : Channel) : Glyph :=
  if i.classicalControl then
    if i.participants.first? = some c then .box i.gate.label true else .dot
  else
    let targetOrDot : Glyph := if i.operands.getLast? = some c then .target else .dot
    match i.gate with
    | .measure => if c.isClassical then .dot else .meter
    | .cnot => targetOrDot
    | .cx => targetOrDot
    | .toffoli => targetOrDot
    | .swap => .cross
    | .cz => .dot
    | .cphase => .dot
    | .cr => .dot
    | .not => .box i.gate.label false
    | _ => .box i.gate.label true

end Instruction

end QuantumDiagram
