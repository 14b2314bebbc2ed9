import QuantumDiagram.Program.Run
import QuantumDiagram.Svg.Drawing

/-!
# From programs to drawings

A program is parsed, laid out on a surface and written as an SVG document. It is refused if it does
not parse, and, on request, if the surface is too small for it.
-/

namespace QuantumDiagram

structure Rendering where
  layout : LayoutSettings := {}
  svg : Svg.Settings := {}
  stylesheet : Stylesheet := .default
  surface : Size := ⟨800, 400⟩
  /-- Whether a surface that is too small is an error. -/
  strict : Bool := false

inductive RenderError where
  | parse (e : ParseError)
  | cramped (c : Cramped)

namespace RenderError

def message : RenderError → Text
  | parse e => "parse error: ".toList ++ e.message
  | cramped c => "layout error: ".toList ++ c.message

end RenderError

namespace Rendering

/-- The layout of a circuit, with the measures of the stylesheet's font. -/
def layoutOf (r : Rendering) (m : Circuit) : Except RenderError Layout :=
  let metrics : FontMetrics := .ofSize r.stylesheet.fontSize
  match m.cramped? r.surface metrics r.layout, r.strict with
  | some c, true => .error (.cramped c)
  | _, _ => .ok (m.layout r.surface metrics r.layout)

/-- The circuit that a program describes, with its layout. -/
def prepare (r : Rendering) (source : Text) : Except RenderError (Circuit × Layout) :=
  match Circuit.ofProgram source with
  | .error e => .error (.parse e)
  | .ok m => (r.layoutOf m).map (m, ·)

/-- The text of the document that shows a layout. -/
def write (r : Rendering) (l : Layout) : Text := l.svg r.svg r.stylesheet

/-- The text of the document that shows a program. -/
def render (r : Rendering) (source : Text) : Except RenderError Text :=
  (r.prepare source).map fun (_, l) => r.write l

end Rendering

end QuantumDiagram
