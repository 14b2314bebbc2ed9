import QuantumDiagram.Circuit.Grid
import QuantumDiagram.Decimal.Shortest

/-!
# Circuits

A circuit is a grid of instructions over the channels of some qubits, with names for some channels
and with named ranges of columns. `Circuit.listing` writes one down line by line.
-/

namespace QuantumDiagram

/-- A named range of columns that may stand for several repetitions. -/
structure Subroutine where
  name : Text
  repetitions : Nat
  /-- The first column. -/
  start : Nat
  /-- The column after the last one. -/
  stop : Nat
deriving DecidableEq

namespace Subroutine

/-- The name, with the number of repetitions if there are several. -/
def caption (s : Subroutine) : Text :=
  if 1 < s.repetitions then s.name ++ '(' :: (Decimal.natural s.repetitions ++ [')']) else s.name

end Subroutine

structure Circuit where
  qubits : Nat
  /-- The name given to each channel, by row. -/
  aliases : Array (Option Text)
  grid : Grid
  subroutines : List Subroutine
  /-- The number of columns in use. -/
  columns : Nat

namespace Circuit

def channels (m : Circuit) : List Channel := Channel.all m.qubits

def alias? (m : Circuit) (c : Channel) : Option Text := (m.aliases[c.row m.qubits]?).join

def lastColumn? (m : Circuit) : Option Nat := if m.columns = 0 then none else some (m.columns - 1)

/-- The name shown for a channel: the one given to it, else the canonical one. -/
def shownName (m : Circuit) (c : Channel) : Text := (m.alias? c).getD c.text

/-- The label of a channel's row: qubits are written as states. -/
def label (m : Circuit) (c : Channel) : Text :=
  if c.isClassical then m.shownName c else '|' :: (m.shownName c ++ ['>'])

/-- The rows that are shown: every qubit, and the bits that hold a cell. -/
def visibleRows (m : Circuit) : List Channel :=
  let rows := m.grid.rows
  m.channels.filter fun c => !c.isClassical || rows.contains c

/-! ## Listing -/

def cellLine (cell : Site × Instruction) : Text :=
  let (site, i) := cell
  let angle : Text := match i.angle with
    | some a => Text.join [" angle=", Decimal.floating a]
    | none => []
  Text.line [site.channel.text, "@", Decimal.natural site.column, " ", i.name, " [",
    Text.joinWith " " (i.participants.toList.map Channel.text), "]", angle]

/-- The whole circuit, line by line: the qubits, the names, the cells and the subroutines. -/
def listing (m : Circuit) : Text :=
  Text.join [
    Text.line ["qubits ", Decimal.natural m.qubits],
    m.channels.flatMap fun c => match m.alias? c with
      | some a => Text.line ["map ", c.text, " ", a]
      | none => [],
    m.grid.toList.flatMap cellLine,
    m.subroutines.flatMap fun s =>
      Text.line [".", s.caption, " ", Decimal.natural s.start, "..", Decimal.natural s.stop]]

end Circuit

end QuantumDiagram
