import QuantumDiagram.Toml.Scalar

/-!
# Reading TOML documents

A document is read line by line: headers open tables, and the other lines give values to keys in the
table that is open. Arrays and inline tables nest to a limited depth. The readers recurse on a bound
of their steps, which `read?` takes so large that no text needs more.
-/

namespace QuantumDiagram.Toml

/-- Arrays and inline tables nest less deeply than this, and a key has fewer parts. -/
def nestingLimit : Nat := 80

/-- What follows the spaces and tabs at the start of a text. -/
def skipSpaces (t : Text) : Text := t.dropWhile isSpace

/-- What follows the spaces, tabs, line ends and comments at the start of a text. -/
def skipGaps : (inComment : Bool) → Text → Text
  | _, '\n' :: rest => skipGaps false rest
  | _, '\r' :: '\n' :: rest => skipGaps false rest
  | true, c :: rest => if isPlain c then skipGaps true rest else c :: rest
  | false, '#' :: rest => skipGaps true rest
  | false, c :: rest => if isSpace c then skipGaps false rest else c :: rest
  | _, [] => []

/-- What follows the end of a line, before which only spaces, tabs and a comment may stand. -/
def endLine? (t : Text) : Option Text :=
  let rest := match skipSpaces t with
    | '#' :: comment => comment.dropWhile isPlain
    | rest => rest
  if rest = [] then some [] else afterNewline? rest

/-! ## Keys -/

def isBareKeyChar (c : Char) : Bool := c.isAlphanum || c = '_' || c = '-'

def readSimpleKey? (t : Text) : Option (Text × Text) :=
  match t with
  | '"' :: _ => readQuotedLine? t
  | '\'' :: _ => readQuotedLine? t
  | _ =>
    let key := t.takeWhile isBareKeyChar
    if key = [] then none else some (key, t.drop key.length)

/-- Reads the parts of a key between the dots, with the spaces around them. -/
def readKeyParts? : (steps : Nat) → Text → Option (List Text × Text)
  | 0, _ => none
  | steps + 1, t => do
    let (part, rest) ← readSimpleKey? (skipSpaces t)
    match skipSpaces rest with
    | '.' :: rest => (readKeyParts? steps rest).map fun (parts, rest) => (part :: parts, rest)
    | rest => some ([part], rest)

/-- Reads a key: the path before its last dot, the rest of it, and what follows. -/
def readKey? (t : Text) : Option (List Text × Text × Text) := do
  let (parts, rest) ← readKeyParts? (nestingLimit - 1) t
  let last ← parts.getLast?
  some (parts.dropLast, last, rest)

/-! ## Values -/

mutual

/-- Reads a value that may hold `depth` levels of arrays and inline tables. -/
def readValue? : (steps depth : Nat) → Text → Option (Node × Text)
  | 0, _, _ => none
  | steps + 1, depth, t =>
    match t with
    | '"' :: _ => (readQuoted? t).map fun (s, rest) => (.string s, rest)
    | '\'' :: _ => (readQuoted? t).map fun (s, rest) => (.string s, rest)
    | '[' :: rest =>
      match depth with
      | 0 => none
      | depth + 1 =>
        match skipGaps false rest with
        | ']' :: rest => some (.array [], rest)
        | rest => (readItems? steps depth rest).map fun (items, rest) => (.array items, rest)
    | '\x7b' :: rest =>
      match depth with
      | 0 => none
      | depth + 1 =>
        match skipSpaces rest with
        | '\x7d' :: rest => some (.inline [], rest)
        | rest => (readFields? steps depth [] rest).map fun (es, rest) => (.inline es, rest)
    | _ => readWord? t

/-- Reads the items of an array, up to its end. There is at least one. -/
def readItems? : (steps depth : Nat) → Text → Option (List Node × Text)
  | 0, _, _ => none
  | steps + 1, depth, t => do
    let (item, rest) ← readValue? steps depth t
    match skipGaps false rest with
    | ']' :: rest => some ([item], rest)
    | ',' :: rest =>
      match skipGaps false rest with
      | ']' :: rest => some ([item], rest)
      | rest => (readItems? steps depth rest).map fun (items, rest) => (item :: items, rest)
    | _ => none

/-- Reads the entries of an inline table, up to its end, and adds them to `entries`. There is at
least one, and none of them may run over a line. -/
def readFields? : (steps depth : Nat) → (entries : Entries) → Text → Option (Entries × Text)
  | 0, _, _, _ => none
  | steps + 1, depth, entries, t => do
    let (path, key, rest) ← readKey? t
    let (value, rest) ← readValue? steps depth (skipSpaces (← after? '=' rest))
    let entries ← entries.addValue path key value .explicit
    match skipSpaces rest with
    | '\x7d' :: rest => some (entries, rest)
    | ',' :: rest => readFields? steps depth entries rest
    | _ => none

end

/-! ## Lines -/

/-- A document that has been read up to some line. -/
structure Draft where
  root : Entries
  /-- The table that is open. -/
  path : List Text

namespace Draft

def add (d : Draft) (path : List Text) (key : Text) (value : Node) : Option Draft :=
  (d.root.descend .implied (Entries.addValue path key value) d.path .explicit).map fun root =>
    { d with root }

/-- Opens a table, one of an array of tables if `item` is set. -/
def enter (d : Draft) (item : Bool) (path : List Text) (key : Text) : Option Draft :=
  let opened := if item then Entries.openItem path key .explicit d.root
    else Entries.openTable path key .explicit d.root
  opened.map fun root => ⟨root, path ++ [key]⟩

end Draft

def readHeader? (d : Draft) (item : Bool) (t : Text) : Option (Draft × Text) := do
  let (path, key, rest) ← readKey? t
  let rest ← after? ']' rest
  let rest ← if item then after? ']' rest else some rest
  let d ← d.enter item path key
  some (d, ← endLine? rest)

def readEntry? (d : Draft) (t : Text) : Option (Draft × Text) := do
  let (path, key, rest) ← readKey? t
  let rest := skipSpaces (← after? '=' rest)
  let (value, rest) ← readValue? (2 * rest.length + 2) (nestingLimit - 1) rest
  let d ← d.add path key value
  some (d, ← endLine? rest)

def readLines? : (steps : Nat) → Draft → Text → Option Draft
  | 0, _, _ => none
  | steps + 1, d, t =>
    match skipSpaces t with
    | [] => some d
    | '[' :: '[' :: rest => do
      let (d, rest) ← readHeader? d true rest
      readLines? steps d rest
    | '[' :: rest => do
      let (d, rest) ← readHeader? d false rest
      readLines? steps d rest
    | c :: rest =>
      if c = '#' || c = '\n' || c = '\r' then do
        let rest ← endLine? (c :: rest)
        readLines? steps d rest
      else do
        let (d, rest) ← readEntry? d (c :: rest)
        readLines? steps d rest

/-- The entries of a document; `none` if the text is none. A byte order mark at its start is passed
over. -/
def read? (t : Text) : Option Entries :=
  let t := match t with
    | '\ufeff' :: rest => rest
    | t => t
  (readLines? (t.length + 1) ⟨[], []⟩ t).map (·.root)

end QuantumDiagram.Toml
