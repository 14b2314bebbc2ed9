import QuantumDiagram.Stylesheet
import QuantumDiagram.Toml.Document

/-!
# Reading stylesheets

A stylesheet is a TOML document with the tables `metadata`, `colors` and `font`, all of which may be
missing; other keys do not matter. A record may also be written as an array of its fields.
-/

namespace QuantumDiagram.Stylesheet

open Toml

def textOf? : Node → Option Text
  | .string t => some t
  | _ => none

/-- The number of a value; integers count as numbers. -/
def numberOf? : Node → Option Float
  | .float x => some x
  | .integer n => some (if n < 0 then -Decimal.nearest n.natAbs 0 else Decimal.nearest n.natAbs 0)
  | _ => none

/-- The entries of a table, however it was written. -/
def entriesOf? : Node → Option Entries
  | .inline es => some es
  | .table _ es => some es
  | _ => none

/-- A field that may be missing, but must be right if it is there. -/
def field? {α : Type} (read : Node → Option α) (node : Option Node) : Option (Option α) :=
  match node with
  | none => some none
  | some n => (read n).map some

/-- The two fields of a record: by their names, or as the first items of an array. A date or time
has no such fields. -/
def fields? {α β : Type} (first second : Text) (readFirst : Node → Option α)
    (readSecond : Node → Option β) : Node → Option (Option α × Option β)
  | .array (a :: b :: _) => do some (← (readFirst a).map some, ← (readSecond b).map some)
  | .moment _ => some (none, none)
  | node => do
    let es ← entriesOf? node
    some (← field? readFirst (es.get? first), ← field? readSecond (es.get? second))

/-- A record that may be missing. -/
def record? {α β : Type} (first second : Text) (readFirst : Node → Option α)
    (readSecond : Node → Option β) (node : Option Node) : Option (Option α × Option β) :=
  match node with
  | none => some (none, none)
  | some n => fields? first second readFirst readSecond n

/-- The colours of a table; every value must be a text. A date or time counts as a table with one
entry under a reserved key. -/
def colors? : Option Node → Option Palette
  | none => some []
  | some (.moment t) => some [("$__toml_private_datetime", t)]
  | some node => do
    let es ← entriesOf? node
    let colors ← es.mapM fun (token, value) => (textOf? value).map (token, ·)
    some (Palette.setAll [] colors)

/-- The stylesheet that a TOML document describes. -/
def ofEntries? (es : Entries) : Option Stylesheet := do
  let (name, description) ← record? "name" "description" textOf? textOf? (es.get? "metadata")
  let colors ← colors? (es.get? "colors")
  let (family, size) ← record? "family" "size" textOf? numberOf? (es.get? "font")
  some {
    name
    description
    colors
    fontFamily := family.getD default.fontFamily
    fontSize := size.getD default.fontSize }

def read? (t : Text) : Option Stylesheet := (Toml.read? t).bind ofEntries?

end QuantumDiagram.Stylesheet
