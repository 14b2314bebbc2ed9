import QuantumDiagram.Decimal.Digits
import QuantumDiagram.Decimal.Shortest
import QuantumDiagram.Stylesheet

/-!
# The style rules of a drawing

The colours of a stylesheet become custom properties, and each class of the drawing has one rule
that refers to them.
-/

namespace QuantumDiagram.Svg

structure Style where
  stylesheet : Stylesheet
  borderWidth : Int

namespace Style

/-- A declaration: a property and its value. -/
abbrev Declaration := Text × Text

/-- The rule that gives the declarations to the classes. -/
def rule (classPrefix : Text) (classes : List Text) (declarations : List Declaration) : Text :=
  Text.join [
    "  ",
    Text.joinWith ", " (classes.map fun c => '.' :: (classPrefix ++ c)),
    " \x7b ",
    declarations.flatMap fun (property, value) => Text.join [property, ": ", value, "; "],
    "\x7d"]

def properties (colors : Palette) : Text :=
  Text.join [
    ":root \x7b\n",
    colors.flatMap fun (token, color) => Text.join ["    --", token, ": ", color, ";\n"],
    "  \x7d"]

def rules (s : Style) (classPrefix : Text) : List Text :=
  let rule := rule classPrefix
  [properties s.stylesheet.resolved,
    rule ["background"] [("fill", "var(--background)"), ("stroke", "none")],
    rule ["wire", "connector"]
      [("stroke", "var(--wire)"), ("stroke-width", "1"), ("fill", "none")],
    rule ["box"]
      [("fill", "var(--gate-fill)"), ("stroke", "var(--gate-stroke)"),
        ("stroke-width", Decimal.integer s.borderWidth)],
    rule ["text"]
      [("fill", "var(--text)"), ("font-family", s.stylesheet.fontFamily),
        ("font-size", Decimal.floating s.stylesheet.fontSize ++ "px".toList)],
    rule ["dot"]
      [("fill", "var(--node)"), ("stroke", "var(--node)"), ("stroke-width", "1.5")],
    rule ["target"] [("fill", "none"), ("stroke", "var(--node)"), ("stroke-width", "2")],
    rule ["cross"] [("stroke", "var(--node)"), ("stroke-width", "2.5")],
    rule ["meter"]
      [("fill", "none"), ("stroke", "var(--gate-stroke)"), ("stroke-width", "1.5")],
    rule ["bracket"]
      [("stroke", "var(--subroutine)"), ("stroke-width", "1"), ("fill", "none")],
    rule ["guide"]
      [("stroke", "var(--subroutine)"), ("stroke-width", "2"), ("stroke-dasharray", "5,1")]]

def text (s : Style) (classPrefix : Text) : Text := Text.joinWith "\n" (s.rules classPrefix)

end Style

end QuantumDiagram.Svg
