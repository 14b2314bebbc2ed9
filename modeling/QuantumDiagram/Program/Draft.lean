import QuantumDiagram.Circuit
import QuantumDiagram.Program.Pending

/-!
# Drafts of a circuit

A program is executed statement by statement. The draft holds what has been built so far and the
column that gates go into; a statement leaves that column as it is.
-/

namespace QuantumDiagram

/-- A subroutine whose last column is not known yet. -/
structure OpenSubroutine where
  name : Text
  repetitions : Nat
  /-- The first column. -/
  start : Nat
  /-- The line of the header. -/
  line : Line
  /-- The span of the header. -/
  span : Span
deriving DecidableEq

/-- What a running program has built so far. -/
structure Draft where
  qubits : Nat
  /-- The name given to each channel, by row. -/
  aliases : Array (Option Text)
  grid : Grid
  opened : Option OpenSubroutine
  subroutines : List Subroutine
  /-- The column that the next gate goes into. -/
  column : Nat

namespace Draft

/-- The draft before the first statement of a program on the given number of qubits. -/
def initial (qubits : Nat) : Draft where
  qubits
  aliases := Array.replicate (2 * qubits) none
  grid := .empty
  opened := none
  subroutines := []
  column := 0

/-! ## Subroutines -/

/-- Records the open subroutine. It ends before the current column and must not be empty. -/
def recordSubroutine (d : Draft) : Except ParseError Draft :=
  match d.opened with
  | none => .error ⟨.malformedSubroutine .noneOpen, 0, [], ⟨0, 0⟩⟩
  | some o =>
    if o.start = d.column then
      .error ⟨.malformedSubroutine (.noInstructions o.name), o.line.number, o.line.text, o.span⟩
    else
      .ok { d with
        opened := none
        subroutines := d.subroutines ++ [⟨o.name, o.repetitions, o.start, d.column⟩] }

/-- Ends the open subroutine, if there is one. -/
def closeSubroutine (d : Draft) : Except ParseError Draft :=
  if d.opened.isSome then d.recordSubroutine else .ok d

/-- The greatest number of repetitions of a subroutine. -/
def maxRepetitions : Nat := 4294967295

/-- The number of repetitions that a literal stands for: a whole number within bounds. -/
def repetitionsOf? (x : Float) : Option Nat :=
  (Decimal.Binary64.decode x).natural?.filter fun n => 1 ≤ n ∧ n ≤ maxRepetitions

/-- The number of repetitions that a header states; one if it states none. -/
def repetitionCount (p : Pending) : Option (Located Float) → Except ParseError Nat
  | none => .ok 1
  | some x =>
    match repetitionsOf? x.value with
    | some n => .ok n
    | none => .error (p.error (.malformedSubroutine (.badRepetitions x.value)) (p.locate x.span))

/-- Executes a header: the open subroutine ends and another one begins. -/
def openSubroutine (d : Draft) (p : Pending) (name : Located Text)
    (repetitions : Option (Located Float)) : Except ParseError Draft := do
  let d ← d.closeSubroutine
  let count ← repetitionCount p repetitions
  .ok { d with opened := some ⟨name.value, count, d.column, p.line, p.span⟩ }

/-! ## Names of channels -/

/-- The channel that a name stands for: the one it was given to, else the one it is the canonical
name of. -/
def channelOf? (d : Draft) (name : Text) : Option Channel :=
  match d.aliases.findIdx? (·.any (· = name)) with
  | some row => some (Channel.ofRow d.qubits row)
  | none => Channel.read? d.qubits name

/-- The error that an operand stands for no channel. -/
def unresolved (p : Pending) (operand : Located Operand) : ParseError :=
  p.error (.unresolvedOperand operand.value.text) (p.locate operand.span)

/-- The channel that `find` knows the name of an operand as. -/
def resolveBy (find : Text → Option Channel) (p : Pending) (operand : Located Operand) :
    Except ParseError Channel :=
  match operand.value with
  | .name n => (find n).elim (.error (unresolved p operand)) .ok
  | .number _ => .error (unresolved p operand)

def resolve (d : Draft) : Pending → Located Operand → Except ParseError Channel :=
  resolveBy d.channelOf?

/-- Gives a name to a channel; whatever had the name, and whatever name the channel had, is
forgotten. -/
def giveName (d : Draft) (c : Channel) (name : Text) : Draft :=
  { d with
    aliases := (d.aliases.map (·.filter (· ≠ name))).setIfInBounds (c.row d.qubits)
      (some name) }

/-- Executes `map`: the first operand must be a canonical name, the second any name. -/
def bindAlias (d : Draft) (p : Pending) (operands : List (Located Operand)) :
    Except ParseError Draft :=
  match operands with
  | [target, given] => do
    let c ← resolveBy (Channel.read? d.qubits) p target
    match given.value with
    | .name n => .ok (d.giveName c n)
    | .number _ =>
      .error (p.error (.malformedStatement (.aliasNotName given.value.text))
        (p.locate given.span))
  | _ => .error (p.error (.arityMismatch Gate.map.name (.exactly 2) operands.length) p.span)

/-! ## Gates -/

/-- Puts an instruction into the cells of its participants, all of which must be free. -/
def occupy (d : Draft) (p : Pending) (i : Instruction) : Except ParseError Draft :=
  match i.participants.toList.find? (d.grid.isOccupied · i.column) with
  | some c => .error (p.error (.malformedStatement (.siteTaken c i.column)) p.span)
  | none => .ok { d with grid := d.grid.place i }

/-- The measurement of one qubit in a column: its result goes to the partner bit. -/
def measurement (column index : Nat) : Instruction where
  gate := .measure
  classicalControl := false
  operands := [.qubit index]
  column
  participants := .ofList [.qubit index, (Channel.qubit index).partner]
  angle := none

/-- The index of the qubit that a channel is; a bit cannot be measured. -/
def measuredIndex (p : Pending) (operand : Channel × Span) : Except ParseError Nat :=
  match operand.1 with
  | .qubit i => .ok i
  | .bit i =>
    .error (p.error (.malformedStatement (.measuresBit (.bit i))) (p.locate operand.2))

/-- Executes `measure` on qubits, or on all of them if none is named: one instruction each. -/
def measure (d : Draft) (p : Pending) (operands : List (Channel × Span)) :
    Except ParseError Draft := do
  let named ← operands.mapM (measuredIndex p)
  let targets := if operands.isEmpty then List.range d.qubits else named
  targets.foldlM (fun d index => d.occupy p (measurement d.column index)) d

/-- Splits the angle off the operands of a rotation; no other gate has one. -/
def splitAngle (p : Pending) (gate : Gate) (operands : List (Located Operand)) :
    Except ParseError (Option Float × List (Located Operand)) :=
  if gate.takesAngle then
    match operands.getLast? with
    | none => .ok (none, operands)
    | some last =>
      match last.value with
      | .number x => .ok (some x, operands.dropLast)
      | .name _ => .error (unresolved p last)
  else .ok (none, operands)

/-- Whether a classical bit controls a gate on these channels. -/
def isControlledClassically (control : Control) (channels : List Channel) : Bool :=
  match control with
  | .quantum => false
  | .byFirstOperand => channels.head?.any Channel.isClassical
  | .classical => true

def placeGate (d : Draft) (p : Pending) (entry : Catalog.Entry)
    (operands : List (Located Operand)) : Except ParseError Draft := do
  let (angle, operands) ← splitAngle p entry.gate operands
  let channels ← operands.mapM (d.resolve p)
  if entry.gate = .measure then d.measure p (channels.zip (operands.map Located.span))
  else
    d.occupy p {
      gate := entry.gate
      classicalControl := isControlledClassically entry.control channels
      operands := channels
      column := d.column
      participants := .ofList channels
      angle }

/-! ## Statements -/

/-- Executes an instruction. The Boolean tells whether it placed a gate. -/
def instruct (d : Draft) (p : Pending) (keyword : Located Text)
    (operands : List (Located Operand)) : Except ParseError (Draft × Bool) :=
  let name := Text.lower keyword.value
  if name = "qubits".toList then .ok (d, false)
  else
    match Catalog.lookup? name with
    | none => .error (p.error (.unknownInstruction keyword.value) (p.locate keyword.span))
    | some entry =>
      if entry.arity.accepts operands.length then
        match entry.role with
        | .declaration => (d.bindAlias p operands).map (·, false)
        | _ => (d.placeGate p entry operands).map (·, true)
      else .error (p.error (.arityMismatch name entry.arity operands.length) p.span)

/-- The word that a statement begins with, in small letters. -/
def leadingWord (p : Pending) : Text := Text.lower (Text.firstWord p.text)

/-- Ends the open subroutine before a statement that is neither indented nor a header. -/
def leaveSubroutine (d : Draft) (p : Pending) : Except ParseError Draft :=
  if Text.startsWith (leadingWord p) "." || p.indented then .ok d else d.closeSubroutine

/-- Executes a statement. Directives to display something are skipped before anything else; the
skipped `error_model` ends the open subroutine. -/
def execute (d : Draft) (p : Pending) : Except ParseError (Draft × Bool) :=
  if Text.startsWith (leadingWord p) "display" then .ok (d, false)
  else do
    let d ← d.leaveSubroutine p
    if leadingWord p = "error_model".toList then .ok (d, false)
    else
      match Statement.read p.text with
      | .error e => .error (p.error (.malformedStatement (.unreadable e.value)) (p.locate e.span))
      | .ok (.header name repetitions) => (d.openSubroutine p name repetitions).map (·, false)
      | .ok (.instruction keyword operands) => d.instruct p keyword operands

/-- Moves on to the next column if the last one is used. -/
def advance (d : Draft) (used : Bool) : Draft :=
  { d with column := if used then d.column + 1 else d.column }

def circuit (d : Draft) : Circuit where
  qubits := d.qubits
  aliases := d.aliases
  grid := d.grid
  subroutines := d.subroutines
  columns := max d.column ((d.grid.lastColumn?.map (· + 1)).getD 0)

/-- The circuit of a finished program: the open subroutine ends. -/
def finish (d : Draft) : Except ParseError Circuit := d.closeSubroutine.map circuit

end Draft

end QuantumDiagram
