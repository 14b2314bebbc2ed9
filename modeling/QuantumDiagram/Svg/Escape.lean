import QuantumDiagram.Text

/-!
# Escaping

In character data and attribute values, the five characters that have a meaning in markup are
written as entities.
-/

namespace QuantumDiagram.Svg

def escapeChar : Char → Text
  | '&' => "&amp;"
  | '<' => "&lt;"
  | '>' => "&gt;"
  | '"' => "&quot;"
  | '\'' => "&apos;"
  | c => [c]

/-- How a text is written: each character on its own. -/
def escape (t : Text) : Text := t.flatMap escapeChar

end QuantumDiagram.Svg
