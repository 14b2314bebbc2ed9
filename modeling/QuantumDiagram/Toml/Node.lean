import QuantumDiagram.Text

/-!
# TOML documents as trees

A document is a table of values and further tables. Whether a table may be opened or extended once
more depends on how it came about (`TableKind`), so a document under construction keeps track of
that.
-/

namespace QuantumDiagram.Toml

/-- How a table came about. -/
inductive TableKind where
  /-- By a header of its own, or by being the whole document. -/
  | explicit
  /-- As the parent of a table with a header. -/
  | implied
  /-- By a key with dots. -/
  | dotted
deriving DecidableEq, Repr

inductive Node where
  | string (value : Text)
  | integer (value : Int)
  | float (value : Float)
  | boolean (value : Bool)
  /-- A date, a time or both, in its canonical form. -/
  | moment (text : Text)
  | array (items : List Node)
  /-- A table written as a value. -/
  | inline (entries : List (Text × Node))
  | table (kind : TableKind) (entries : List (Text × Node))
  /-- An array of tables with headers: the earlier ones and the last one. -/
  | tables (earlier : List (List (Text × Node))) (last : List (Text × Node))

/-- The entries of a table, in the order in which they were written. -/
abbrev Entries := List (Text × Node)

namespace Entries

def get? (es : Entries) (key : Text) : Option Node := es.lookup key

/-- Gives a node to a key, which keeps its place if it is there already. -/
def put (es : Entries) (key : Text) (node : Node) : Entries :=
  match es with
  | [] => [(key, node)]
  | (k, n) :: rest => if k = key then (key, node) :: rest else (k, n) :: put rest key node

/-- Changes the table at the end of a path. Tables that are missing on the way come about as
`missing`; of arrays of tables the last table is meant. Values are not entered, and if `missing` is
`dotted`, no table that has a header. -/
def descend (missing : TableKind) (change : TableKind → Entries → Option Entries) :
    (path : List Text) → (kind : TableKind) → Entries → Option Entries
  | [], kind, es => change kind es
  | key :: path, _, es =>
    match get? es key with
    | none =>
      (descend missing change path missing []).map fun sub => es.put key (.table missing sub)
    | some (.table kind sub) =>
      if missing = .dotted ∧ kind = .explicit then none
      else (descend missing change path kind sub).map fun sub => es.put key (.table kind sub)
    | some (.tables earlier last) =>
      (descend missing change path .explicit last).map fun last =>
        es.put key (.tables earlier last)
    | some _ => none

/-- Adds a value under a key with dots, given as the path before the last dot and the rest. A key
must be new, and a path must lead to a table that such keys made. -/
def addValue (path : List Text) (key : Text) (value : Node) :
    (kind : TableKind) → Entries → Option Entries :=
  descend .dotted (fun kind es =>
    if decide (kind = .dotted) = path.isEmpty ∨ (es.get? key).isSome then none
    else some (es.put key value)) path

/-- Opens a table with a header, at the end of a path. It must not have a header already. -/
def openTable (path : List Text) (key : Text) : (kind : TableKind) → Entries → Option Entries :=
  descend .implied (fun _ es =>
    match es.get? key with
    | none => some (es.put key (.table .explicit []))
    | some (.table .implied sub) => some (es.put key (.table .explicit sub))
    | some _ => none) path

/-- Opens one more table of an array of tables, at the end of a path. -/
def openItem (path : List Text) (key : Text) : (kind : TableKind) → Entries → Option Entries :=
  descend .implied (fun _ es =>
    match es.get? key with
    | none => some (es.put key (.tables [] []))
    | some (.tables earlier last) => some (es.put key (.tables (earlier ++ [last]) []))
    | some _ => none) path

end Entries

end QuantumDiagram.Toml
