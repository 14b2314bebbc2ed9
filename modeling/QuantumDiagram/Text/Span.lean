import QuantumDiagram.Text.Blank

/-!
# Spans

A span is a half-open range of byte offsets. A located value carries the span of the text it was
read from.
-/

namespace QuantumDiagram

/-- The bytes from `start` up to, not including, `stop`. -/
structure Span where
  start : Nat
  stop : Nat
deriving DecidableEq, Repr

namespace Span

def shift (offset : Nat) (s : Span) : Span := ⟨offset + s.start, offset + s.stop⟩

/-- The span of a whole text that begins at `offset`. -/
def ofText (offset : Nat) (t : Text) : Span := ⟨offset, offset + Text.byteLength t⟩

/-- The span of the trimmed text, of a text that begins at `offset`. A blank text has an empty span
at its end. -/
def ofTrimmed (offset : Nat) (t : Text) : Span :=
  let start := offset + (Text.byteLength t - Text.byteLength (Text.trimStart t))
  ⟨start, max start (offset + Text.byteLength (Text.trimEnd t))⟩

end Span

structure Located (α : Type) where
  value : α
  span : Span

end QuantumDiagram
