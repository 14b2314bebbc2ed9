import QuantumDiagram.Gate.Catalog
import QuantumDiagram.Channel
import QuantumDiagram.Program.Line
import QuantumDiagram.Statement

/-!
# Errors of a program

A program is refused for one cause, at one line and span. The wording of every cause is given here.
-/

namespace QuantumDiagram

inductive SubroutineFault where
  | badRepetitions (found : Float)
  | noInstructions (name : Text)
  /-- A subroutine is to end, but there is none. -/
  | noneOpen

/-- Why a statement is refused, beside its keyword, the number of its operands and their names. -/
inductive StatementFault where
  | unreadable (e : SyntaxError)
  /-- A brace inside a parallel block. -/
  | nestedBlock
  | aliasNotName (found : Text)
  | measuresBit (found : Channel)
  /-- The site of a participant holds another instruction. -/
  | siteTaken (channel : Channel) (column : Nat)

inductive Fault where
  /-- There is no line that states the number of qubits, or it is not of the right form. -/
  | missingDeclaration
  | unknownInstruction (keyword : Text)
  | arityMismatch (keyword : Text) (expected : Arity) (found : Nat)
  | unresolvedOperand (operand : Text)
  | malformedSubroutine (cause : SubroutineFault)
  | malformedStatement (cause : StatementFault)

namespace SubroutineFault

def message : SubroutineFault → Text
  | badRepetitions found =>
    "repeat count must be a positive integer, found ".toList ++ Decimal.floating found
  | noInstructions name => Text.join ["subroutine '", name, "' contains no instructions"]
  | noneOpen => "no subroutine is open"

/-- How the message of a fault with the given cause begins. -/
def heading : Text := "malformed subroutine: "

end SubroutineFault

namespace StatementFault

def message : StatementFault → Text
  | unreadable e => e.message
  | nestedBlock => "nested parallel block"
  | aliasNotName found => "alias must be a name, found ".toList ++ found
  | measuresBit found => "measure expects qubit operands, found ".toList ++ found.text
  | siteTaken channel column =>
    Text.join [channel.text, " is already used in column ", Decimal.natural column]

/-- How the message of a fault with the given cause begins. -/
def heading : Text := "malformed statement: "

end StatementFault

namespace Fault

def message : Fault → Text
  | missingDeclaration => "missing or malformed `qubits <N>` declaration"
  | unknownInstruction keyword => Text.join ["unknown instruction '", keyword, "'"]
  | arityMismatch keyword expected found =>
    Text.join ["'", keyword, "' takes ", expected.text, " operand(s), found ",
      Decimal.natural found]
  | unresolvedOperand operand => Text.join ["cannot resolve operand '", operand, "'"]
  | malformedSubroutine cause => SubroutineFault.heading ++ cause.message
  | malformedStatement cause => StatementFault.heading ++ cause.message

end Fault

structure ParseError where
  fault : Fault
  /-- The number of the line to blame; zero if it is no line in particular. -/
  line : Nat
  /-- The line to blame. -/
  text : Text
  /-- The bytes of the program to blame. -/
  span : Span

namespace ParseError

/-- What is added to a message to say where the error is. -/
def location (line : Nat) (text : Text) : Text :=
  if line = 0 then []
  else Text.join [" at line ", Decimal.natural line, ": `", Text.trim text, "`"]

def message (e : ParseError) : Text := e.fault.message ++ location e.line e.text

end ParseError

end QuantumDiagram
