import QuantumDiagram.Text

/-!
# Quoted texts of TOML

Basic texts stand between double quotes and know escapes, literal texts stand between single quotes
and know none; both also come with three quotes on each side, and may then run over several lines.
All readers start behind the opening quotes and return the text with what follows the closing ones.
-/

namespace QuantumDiagram.Toml

/-- Whether the character may stand in a comment or, quotes and escapes apart, in a quoted text: no
control character but the tab may. -/
def isPlain (c : Char) : Bool := c = '\t' || (0x20 ≤ c.toNat && c.toNat ≠ 0x7F)

def isSpace (c : Char) : Bool := c = ' ' || c = '\t'

/-- What follows a line end at the start of the text. -/
def afterNewline? : Text → Option Text
  | '\n' :: rest => some rest
  | '\r' :: '\n' :: rest => some rest
  | _ => none

/-! ## Escapes -/

def hexDigit? (c : Char) : Option Nat :=
  if c.isDigit then some (c.toNat - '0'.toNat)
  else if 'a' ≤ c ∧ c ≤ 'f' then some (c.toNat - 'a'.toNat + 10)
  else if 'A' ≤ c ∧ c ≤ 'F' then some (c.toNat - 'A'.toNat + 10)
  else none

/-- The number that hexadecimal digits stand for. -/
def hexNumber? (digits : Text) : Option Nat :=
  digits.foldlM (fun n c => (hexDigit? c).map (16 * n + ·)) 0

/-- The character with the given code point in hexadecimal digits. -/
def codePoint? (digits : Text) : Option Char := do
  let n ← hexNumber? digits
  if n.isValidChar then some (Char.ofNat n) else none

/-- The character that an escape of one letter stands for. -/
def escapeOf? : Char → Option Char
  | 'b' => some '\x08'
  | 't' => some '\t'
  | 'n' => some '\n'
  | 'f' => some '\x0c'
  | 'r' => some '\r'
  | '"' => some '"'
  | '\\' => some '\\'
  | _ => none

/-- Puts a character in front of a text that was read. -/
def prepend (c : Char) (read : Option (Text × Text)) : Option (Text × Text) :=
  read.map fun (t, rest) => (c :: t, rest)

/-! ## Basic texts -/

def readBasic : Text → Option (Text × Text)
  | '"' :: rest => some ([], rest)
  | '\\' :: 'u' :: a :: b :: c :: d :: rest =>
    (codePoint? [a, b, c, d]).bind fun x => prepend x (readBasic rest)
  | '\\' :: 'U' :: a :: b :: c :: d :: e :: f :: g :: h :: rest =>
    (codePoint? [a, b, c, d, e, f, g, h]).bind fun x => prepend x (readBasic rest)
  | '\\' :: c :: rest => (escapeOf? c).bind fun x => prepend x (readBasic rest)
  | c :: rest => if isPlain c && c ≠ '\\' then prepend c (readBasic rest) else none
  | [] => none

/-- Whether a line ends here, spaces and tabs apart. -/
def endsLine (t : Text) : Bool := (afterNewline? (t.dropWhile isSpace)).isSome

/-- Reads a basic text on several lines. A backslash at the end of a line joins the lines: while
`joining`, spaces, tabs and line ends are passed over. Up to two quotes may stand before the closing
ones. -/
def readBasicLines : (joining : Bool) → Text → Option (Text × Text)
  | joining, '\n' :: rest =>
    if joining then readBasicLines true rest else prepend '\n' (readBasicLines false rest)
  | joining, '\r' :: '\n' :: rest =>
    if joining then readBasicLines true rest else prepend '\n' (readBasicLines false rest)
  | _, '"' :: '"' :: '"' :: '"' :: '"' :: rest => some (['"', '"'], rest)
  | _, '"' :: '"' :: '"' :: '"' :: rest => some (['"'], rest)
  | _, '"' :: '"' :: '"' :: rest => some ([], rest)
  | _, '\\' :: 'u' :: a :: b :: c :: d :: rest =>
    (codePoint? [a, b, c, d]).bind fun x => prepend x (readBasicLines false rest)
  | _, '\\' :: 'U' :: a :: b :: c :: d :: e :: f :: g :: h :: rest =>
    (codePoint? [a, b, c, d, e, f, g, h]).bind fun x => prepend x (readBasicLines false rest)
  | _, '\\' :: c :: rest =>
    if endsLine (c :: rest) then readBasicLines true (c :: rest)
    else (escapeOf? c).bind fun x => prepend x (readBasicLines false rest)
  | joining, c :: rest =>
    if joining && isSpace c then readBasicLines true rest
    else if isPlain c && c ≠ '\\' then prepend c (readBasicLines false rest)
    else none
  | _, [] => none

/-! ## Literal texts -/

def readLiteral : Text → Option (Text × Text)
  | '\'' :: rest => some ([], rest)
  | c :: rest => if isPlain c then prepend c (readLiteral rest) else none
  | [] => none

/-- Reads a literal text on several lines. Up to two quotes may stand before the closing ones. -/
def readLiteralLines : Text → Option (Text × Text)
  | '\n' :: rest => prepend '\n' (readLiteralLines rest)
  | '\r' :: '\n' :: rest => prepend '\n' (readLiteralLines rest)
  | '\'' :: '\'' :: '\'' :: '\'' :: '\'' :: rest => some (['\'', '\''], rest)
  | '\'' :: '\'' :: '\'' :: '\'' :: rest => some (['\''], rest)
  | '\'' :: '\'' :: '\'' :: rest => some ([], rest)
  | c :: rest => if isPlain c then prepend c (readLiteralLines rest) else none
  | [] => none

/-! ## Quoted texts -/

/-- Reads a quoted text that must stand on one line. -/
def readQuotedLine? : Text → Option (Text × Text)
  | '"' :: rest => readBasic rest
  | '\'' :: rest => readLiteral rest
  | _ => none

/-- Reads a quoted text. A line end right behind three opening quotes does not count. -/
def readQuoted? : Text → Option (Text × Text)
  | '"' :: '"' :: '"' :: rest => readBasicLines false ((afterNewline? rest).getD rest)
  | '\'' :: '\'' :: '\'' :: rest => readLiteralLines ((afterNewline? rest).getD rest)
  | t => readQuotedLine? t

end QuantumDiagram.Toml
