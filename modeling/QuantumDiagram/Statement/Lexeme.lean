import QuantumDiagram.Decimal.Reading
import QuantumDiagram.Decimal.Shortest
import QuantumDiagram.Text.Span

/-!
# Lexemes

A statement is cut into lexemes, separated by spaces, tabs, line ends and comments. At each position
the longest stretch is taken that has the form of a lexeme (`Lexeme.first?`); the forms differ in
their first character, so a stretch determines its lexeme.
-/

namespace QuantumDiagram

inductive Lexeme where
  | comma
  | dot
  | openParen
  | closeParen
  | openBrace
  | closeBrace
  | pipe
  | identifier (name : Text)
  | number (value : Float)

namespace Lexeme

def text : Lexeme → Text
  | comma => "','"
  | dot => "'.'"
  | openParen => "'('"
  | closeParen => "')'"
  | openBrace => "'\x7b'"
  | closeBrace => "'\x7d'"
  | pipe => "'|'"
  | identifier name => "identifier '".toList ++ name ++ ['\'']
  | number value => "number ".toList ++ Decimal.floating value

/-- The lexemes that are one character. -/
def ofChar? : Char → Option Lexeme
  | ',' => some comma
  | '.' => some dot
  | '(' => some openParen
  | ')' => some closeParen
  | '\x7b' => some openBrace
  | '\x7d' => some closeBrace
  | '|' => some pipe
  | _ => none

/-! ## Identifiers -/

/-- The characters that an identifier may begin with: ASCII letters and the underscore. -/
def isIdentifierStart (c : Char) : Bool := c.isAlpha || c = '_'

/-- The characters that an identifier may go on with: also ASCII digits and the hyphen. -/
def isIdentifierRest (c : Char) : Bool := c.isAlphanum || c = '_' || c = '-'

/-- The longest identifier at the start of a text; empty if there is none. -/
def identifierOf : Text → Text
  | [] => []
  | c :: rest => if isIdentifierStart c then c :: rest.takeWhile isIdentifierRest else []

/-! ## Numbers -/

/-- The fraction at the start of a text: a point and digits. -/
def fractionOf : Text → Text
  | '.' :: rest =>
    let digits := rest.takeWhile Char.isDigit
    if digits = [] then [] else '.' :: digits
  | _ => []

/-- The sign at the start of an exponent's digits. -/
def signOf : Text → Text
  | '-' :: _ => ['-']
  | '+' :: _ => ['+']
  | _ => []

/-- The exponent at the start of a text: `e`, perhaps a sign, and digits. -/
def exponentOf : Text → Text
  | [] => []
  | mark :: rest =>
    let digits := (rest.drop (signOf rest).length).takeWhile Char.isDigit
    if (mark = 'e' ∨ mark = 'E') ∧ digits ≠ [] then mark :: (signOf rest ++ digits) else []

/-- The longest number at the start of a text: perhaps a minus, digits, perhaps a fraction, perhaps
an exponent. Empty if there is none. -/
def numberOf (t : Text) : Text :=
  let minus : Text := if t.head? = some '-' then ['-'] else []
  let whole := (t.drop minus.length).takeWhile Char.isDigit
  if whole = [] then []
  else
    let integer := minus ++ whole
    let decimal := integer ++ fractionOf (t.drop integer.length)
    decimal ++ exponentOf (t.drop decimal.length)

/-! ## The first lexeme of a text -/

/-- The lexeme at the start of a text and the stretch it takes up. -/
def first? : Text → Option (Lexeme × Text)
  | [] => none
  | c :: rest =>
    match ofChar? c with
    | some l => some (l, [c])
    | none =>
      let name := identifierOf (c :: rest)
      let digits := numberOf (c :: rest)
      if name ≠ [] then some (identifier name, name)
      else if digits ≠ [] then some (number ((Decimal.readFloat? digits).getD 0), digits)
      else none

theorem first?_ne_nil {t s : Text} {l : Lexeme} (h : first? t = some (l, s)) : s ≠ [] := by
  unfold first? at h
  split at h
  · simp at h
  · split at h
    · simp only [Option.some.injEq, Prod.mk.injEq] at h
      simp [← h.2]
    · dsimp only at h
      split at h
      · simp_all
      · split at h <;> simp_all

/-- The characters that may stand between lexemes. -/
def isGap (c : Char) : Bool := c = ' ' || c = '\t' || c = '\r' || c = '\n'

/-- The lexemes of a text that begins at `offset`, each with its span; or the first character that
begins none. A comment runs from its mark to the end of the line. -/
def readAllFrom (offset : Nat) (t : Text) : Except (Located Char) (List (Located Lexeme)) :=
  match t with
  | [] => .ok []
  | c :: rest =>
    if isGap c then readAllFrom (offset + c.utf8Size) rest
    else if c = '#' then
      readAllFrom (offset + Text.byteLength (c :: rest.takeWhile (· ≠ '\n')))
        (rest.dropWhile (· ≠ '\n'))
    else
      match h : first? (c :: rest) with
      | none => .error ⟨c, Span.ofText offset [c]⟩
      | some (l, s) =>
        have := List.length_pos_iff.2 (first?_ne_nil h)
        (readAllFrom (offset + Text.byteLength s) ((c :: rest).drop s.length)).map
          (⟨l, Span.ofText offset s⟩ :: ·)
termination_by t.length
decreasing_by
  · simp
  · simpa using Nat.lt_succ_of_le (List.dropWhile_sublist _).length_le
  · simp only [List.length_drop, List.length_cons]; omega

def readAll (t : Text) : Except (Located Char) (List (Located Lexeme)) := readAllFrom 0 t

end Lexeme

end QuantumDiagram
