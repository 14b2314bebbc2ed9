import QuantumDiagram.Program.Error
import QuantumDiagram.Text.Width

/-!
# Reports of errors

A report shows the message of an error, the place it is at, and the line with the place marked below
it, in the colours of a terminal. It numbers and counts by itself: its lines also end at the other
line terminators of Unicode, and the offsets of a span are taken as counts of characters.
-/

namespace QuantumDiagram.Report

open Text (line)

/-! ## Colours -/

inductive Color where
  | red
  /-- One of the shades of grey of a terminal with 256 colours. -/
  | grey (shade : Nat)
deriving DecidableEq

def paint (color : Color) (t : Text) : Text :=
  let code : Text := match color with
    | .red => "31"
    | .grey shade => "38;5;".toList ++ Decimal.natural shade
  Text.join ["\x1b[", code, "m", t, "\x1b[0m"]

/-- Copies of a character, each in the colour on its own. -/
def painted (color : Color) (count : Nat) (c : Char) : Text :=
  Text.join (List.replicate count (paint color [c]))

def frameColor : Color := .grey 246

def marginColor : Color := .grey 240

/-- The text of the program outside the place of the error. -/
def plainColor : Color := .grey 249

def spaces (count : Nat) : Text := Text.repeated count ' '

/-! ## Lines -/

def isTerminator (c : Char) : Bool :=
  c = '\n' || c = '\r' || c = '\x0b' || c = '\x0c' || c = '\u0085' || c = '\u2028' || c = '\u2029'

/-- A line of a program, with the characters that end it. -/
structure SourceLine where
  number : Nat
  /-- The number of characters before the line. -/
  start : Nat
  chars : Text
deriving DecidableEq

/-- The lines of a text, each with its end. A carriage return and a line feed end a line together.
-/
def splitLines : Text → List Text
  | [] => []
  | '\r' :: '\n' :: rest => ['\r', '\n'] :: splitLines rest
  | c :: rest =>
    if isTerminator c then [c] :: splitLines rest
    else
      match splitLines rest with
      | [] => [[c]]
      | l :: ls => (c :: l) :: ls

/-- Numbers lines and counts the characters before them. -/
def numberLines (number start : Nat) : List Text → List SourceLine
  | [] => []
  | l :: rest => ⟨number, start, l⟩ :: numberLines (number + 1) (start + l.length) rest

def linesOf (source : Text) : List SourceLine := numberLines 1 0 (splitLines source)

/-- The line that an offset is in: the last one that starts at it or before it. -/
def lineAt? (source : Text) (offset : Nat) : Option SourceLine :=
  ((linesOf source).filter (·.start ≤ offset)).getLast?

/-! ## The marked line -/

/-- How a character is shown in a column: the character and the number of columns. -/
def shownAt (column : Nat) (c : Char) : Char × Nat :=
  if c = '\t' then (' ', (column / 4 + 1) * 4 - column)
  else if Text.isBlankChar c then (' ', 1)
  else (c, Text.columns c)

/-- The place of an error in the line it is marked in, counted in characters from the line's start.
-/
structure Marking where
  /-- The line without the blanks at its end. -/
  shown : Text
  start : Nat
  stop : Nat

namespace Marking

/-- Whether a character is in the place of the error. -/
def covers (m : Marking) (index : Nat) : Bool := m.start ≤ index && index < m.stop

/-- The character that the arrow comes from. -/
def middle (m : Marking) : Nat := (m.start + m.stop) / 2

/-- The number of columns of a character; past the end of the line there is one column each. -/
def width (m : Marking) (index : Nat) : Nat :=
  match m.shown[index]? with
  | some c => (shownAt index c).2
  | none => 1

def sourceText (m : Marking) : Text :=
  Text.join (m.shown.zipIdx.map fun (c, index) =>
    let color := if m.covers index then .red else plainColor
    let (shown, width) := shownAt index c
    painted color (if Text.isBlankChar c then width else 1) shown)

/-- A mark that begins with one character and goes on with another one for the rest of the columns.
-/
def arrowMark (first rest : Char) (width : Nat) : Text :=
  if width = 0 then [] else painted .red 1 first ++ painted .red (width - 1) rest

/-- The marks of all characters and of two more. -/
def marks (m : Marking) (mark : (index : Nat) → Text) : Text :=
  Text.join ((List.range (m.stop + 2)).map mark)

/-- The line below, which underlines the place; an empty place has only a bar. -/
def underline (m : Marking) : Text :=
  m.marks fun index =>
    let width := m.width index
    if index = m.middle then
      if m.covers index then arrowMark '┬' '─' width else arrowMark '│' ' ' width
    else if m.covers index then painted .red width '─'
    else spaces width

def arrow (m : Marking) : Text :=
  m.marks fun index =>
    let width := m.width index
    if index < m.middle then spaces width
    else if index = m.middle then arrowMark '╰' '─' width
    else painted .red width '─'

end Marking

/-! ## Reports -/

def labelText (e : ParseError) : Text :=
  match e.fault with
  | .missingDeclaration => if e.line = 0 then "expected a `qubits <N>` line" else e.fault.message
  | .arityMismatch _ expected _ => Text.join ["expected ", expected.text, " operand(s)"]
  | fault => fault.message

/-- The margin of a line that carries marks, beside line numbers of `digits` digits. -/
def margin (digits : Nat) : Text :=
  Text.join [" ", paint marginColor (spaces (digits + 1) ++ ['│']), " "]

/-- The marked line with what is drawn below it. -/
def markedLines (digits number : Nat) (m : Marking) (message : Text) : Text :=
  let numberText := Decimal.natural number
  Text.join [
    line [" ", paint frameColor (Text.join [spaces (digits - numberText.length), numberText, " │"]),
      " ", m.sourceText],
    line [margin digits, m.underline],
    line [margin digits, m.arrow, " ", message]]

/-- What a report shows of a program with an error in the given line. -/
def excerpt (e : ParseError) (fileName : Text) (l : SourceLine) : Text :=
  let number := Decimal.natural l.number
  let digits := number.length
  let marking : Marking :=
    ⟨Text.trimEnd l.chars, e.span.start - l.start, e.span.stop - l.start⟩
  Text.join [
    line [spaces (digits + 2), paint frameColor ['╭'], paint frameColor ['─'],
      paint frameColor ['['], fileName, ":", number, ":",
      Decimal.natural (e.span.start - l.start + 1), paint frameColor [']']],
    line [spaces (digits + 2), paint frameColor ['│']],
    if e.span.stop ≤ l.start + l.chars.length then
      markedLines digits l.number marking (labelText e)
    else line [margin digits],
    line [paint frameColor (Text.repeated (digits + 2) '─' ++ ['╯'])]]

/-- The line of a program that a span is shown in, if the span's offsets lie within the program. -/
def shownLine? (source : Text) (span : Span) : Option SourceLine :=
  if source.length < span.start ∨ span.start < span.stop ∧ source.length < span.stop - 1 then none
  else lineAt? source span.start

def text (e : ParseError) (source fileName : Text) : Text :=
  line [paint .red "Error:", " ", e.fault.message] ++
    match shownLine? source e.span with
    | some l => excerpt e fileName l
    | none => []

end QuantumDiagram.Report
