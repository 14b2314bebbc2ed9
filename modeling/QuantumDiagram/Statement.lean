import QuantumDiagram.Statement.Lexeme

/-!
# Statements

A statement is the header of a subroutine, `.name` or `.name(number)`, or an instruction, a keyword
with operands between commas. Reading one fails at the first lexeme that cannot follow the ones
before it, or at the end of the text if the statement is not complete there. The end of the text has
a span of its own (`endSpan`), which runs back over what stands behind the last lexeme.
-/

namespace QuantumDiagram

/-- What an instruction is applied to: the name of a channel, or a number. -/
inductive Operand where
  | name (name : Text)
  | number (value : Float)

def Operand.text : Operand → Text
  | name n => n
  | number x => Decimal.floating x

inductive Statement where
  /-- Opens a subroutine, perhaps with a number of repetitions. -/
  | header (name : Located Text) (repetitions : Option (Located Float))
  | instruction (keyword : Located Text) (operands : List (Located Operand))

/-- What a message lists as possible at the place of an error. Names and numbers are not listed. -/
inductive Expectation where
  | lexeme (l : Lexeme)
  | endOfStatement

inductive SyntaxError where
  /-- No lexeme begins with the character. -/
  | unrecognized (c : Char)
  /-- The lexeme, or the end of the text, stands where it cannot. -/
  | unexpected (found : Option Lexeme) (expected : List Expectation)

namespace SyntaxError

/-- How a message names a lexeme or the end of the text. -/
def placeText : Option Lexeme → Text
  | some l => l.text
  | none => "end of statement"

def expectationText : Expectation → Text
  | .lexeme l => l.text
  | .endOfStatement => placeText none

def message : SyntaxError → Text
  | unrecognized c => Text.join ["unrecognized input '", [c], "'"]
  | unexpected found [] => "unexpected ".toList ++ placeText found
  | unexpected found expected =>
    Text.join ["unexpected ", placeText found, ", expected ",
      Text.joinWith " or " (expected.map expectationText)]

end SyntaxError

namespace Statement

/-- The span that stands for the end of a text of `size` bytes with the given lexemes: it starts at
the end of the text and stops at the end of the last lexeme. -/
def endSpan (size : Nat) (lexemes : List (Located Lexeme)) : Span :=
  ⟨size, (lexemes.getLast?.map (·.span.stop)).getD size⟩

/-- The error at the first of the remaining lexemes, or at `final`, the span of the end. -/
def unexpected (final : Span) (rest : List (Located Lexeme)) (expected : List Expectation) :
    Located SyntaxError :=
  match rest with
  | [] => ⟨.unexpected none expected, final⟩
  | l :: _ => ⟨.unexpected (some l.value) expected, l.span⟩

def operandOf? (l : Located Lexeme) : Option (Located Operand) :=
  match l.value with
  | .identifier n => some ⟨.name n, l.span⟩
  | .number x => some ⟨.number x, l.span⟩
  | _ => none

/-- The operands after the first one: a comma before each. -/
def furtherOperands (final : Span) :
    List (Located Lexeme) → Except (Located SyntaxError) (List (Located Operand))
  | [] => .ok []
  | ⟨.comma, _⟩ :: l :: rest =>
    match operandOf? l with
    | some operand => (furtherOperands final rest).map (operand :: ·)
    | none => .error (unexpected final (l :: rest) [])
  | [⟨.comma, _⟩] => .error (unexpected final [] [])
  | rest => .error (unexpected final rest [.lexeme .comma, .endOfStatement])

/-- The operands of an instruction: none, or some with commas between them. -/
def operands (final : Span) :
    List (Located Lexeme) → Except (Located SyntaxError) (List (Located Operand))
  | [] => .ok []
  | l :: rest =>
    match operandOf? l with
    | some operand => (furtherOperands final rest).map (operand :: ·)
    | none => .error (unexpected final (l :: rest) [.endOfStatement])

/-- The number of repetitions after the name of a header: none, or a number between parentheses. -/
def repetitions (final : Span) :
    List (Located Lexeme) → Except (Located SyntaxError) (Option (Located Float))
  | [] => .ok none
  | ⟨.openParen, _⟩ :: rest =>
    match rest with
    | ⟨.number x, span⟩ :: rest =>
      match rest with
      | ⟨.closeParen, _⟩ :: rest =>
        if rest.isEmpty then .ok (some ⟨x, span⟩)
        else .error (unexpected final rest [.endOfStatement])
      | rest => .error (unexpected final rest [.lexeme .closeParen])
    | rest => .error (unexpected final rest [])
  | rest => .error (unexpected final rest [.lexeme .openParen, .endOfStatement])

/-- The statement that lexemes make up; `final` is the span of their end. -/
def ofLexemes (final : Span) : List (Located Lexeme) → Except (Located SyntaxError) Statement
  | ⟨.dot, _⟩ :: rest =>
    match rest with
    | ⟨.identifier name, span⟩ :: rest => (repetitions final rest).map (header ⟨name, span⟩)
    | rest => .error (unexpected final rest [])
  | ⟨.identifier keyword, span⟩ :: rest => (operands final rest).map (instruction ⟨keyword, span⟩)
  | rest => .error (unexpected final rest [.lexeme .dot])

def read (t : Text) : Except (Located SyntaxError) Statement :=
  match Lexeme.readAll t with
  | .error c => .error ⟨.unrecognized c.value, c.span⟩
  | .ok lexemes => ofLexemes (endSpan (Text.byteLength t) lexemes) lexemes

end Statement

end QuantumDiagram
