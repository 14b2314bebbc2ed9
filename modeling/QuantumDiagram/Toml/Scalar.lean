import QuantumDiagram.Decimal.Reading
import QuantumDiagram.Toml.Node
import QuantumDiagram.Toml.Quoted

/-!
# Unquoted values of TOML

Booleans, numbers, dates and times are words without spaces, but for a date and a time with a space
between them. Digits of numbers may be grouped by underscores, and integers fit into 64 bits.
-/

namespace QuantumDiagram.Toml

/-! ## Numbers -/

/-- The digits of a number without the underscores, each of which must stand between two digits. -/
def ungroup? (isDigit : Char → Bool) (t : Text) : Option Text :=
  let groups := t.splitOn '_'
  if groups.all fun g => g ≠ [] ∧ g.all isDigit then some groups.flatten else none

/-- The sign in front of a number, as written, and what follows it. -/
def splitSign : Text → Text × Text
  | '-' :: rest => (['-'], rest)
  | '+' :: rest => (['+'], rest)
  | t => ([], t)

/-- The digits of a decimal integer: no zero stands before other digits. -/
def integerDigits? (t : Text) : Option Text :=
  if t.length ≠ 1 ∧ t.head? = some '0' then none else ungroup? Char.isDigit t

/-- An integer, if it fits into 64 bits. -/
def inRange? (n : Int) : Option Node :=
  if -9223372036854775808 ≤ n ∧ n ≤ 9223372036854775807 then some (.integer n) else none

def based? (base : Nat) (t : Text) : Option Node := do
  let digits ← ungroup? (fun c => (hexDigit? c).any (· < base)) t
  let n ← digits.foldlM (fun n c => (hexDigit? c).map (base * n + ·)) 0
  inRange? n

def integer? : Text → Option Node
  | '0' :: 'x' :: digits => based? 16 digits
  | '0' :: 'o' :: digits => based? 8 digits
  | '0' :: 'b' :: digits => based? 2 digits
  | t => do
    let (sign, digits) := splitSign t
    let n := Decimal.naturalOf (← integerDigits? digits)
    inRange? (if sign = ['-'] then -n else n)

/-- The power of ten at the end of a number, without underscores; it may be missing. -/
def exponent? : Text → Option Text
  | [] => some []
  | mark :: rest =>
    if mark = 'e' ∨ mark = 'E' then
      let (sign, digits) := splitSign rest
      (ungroup? Char.isDigit digits).map fun digits => 'e' :: (sign ++ digits)
    else none

/-- A floating-point number with a fraction or a power of ten. A positive one must not exceed the
greatest number. -/
def decimal? (t : Text) : Option Node := do
  let (sign, rest) := splitSign t
  let whole := rest.takeWhile fun c => c.isDigit || c = '_'
  let rest := rest.drop whole.length
  let whole ← integerDigits? whole
  let (fraction, rest) ← match rest with
    | '.' :: rest =>
      let digits := rest.takeWhile fun c => c.isDigit || c = '_'
      (ungroup? Char.isDigit digits).map fun ds => ('.' :: ds, rest.drop digits.length)
    | rest => some ([], rest)
  if fraction = [] ∧ rest = [] then none
  else
    let x ← Decimal.readFloat? (Text.join [sign, whole, fraction, ← exponent? rest])
    if x == 1 / 0 then none else some (.float x)

/-- The words for infinity and for not-a-number. -/
def special? (t : Text) : Option Node :=
  let (sign, word) := splitSign t
  let signed (x : Float) : Node := .float (if sign = ['-'] then -x else x)
  if word = "inf".toList then some (signed (1 / 0))
  else if word = "nan".toList then some (signed (0 / 0))
  else none

/-! ## Dates and times -/

/-- A number of exactly `count` digits between two bounds, and what follows it. -/
def fixed? (count low high : Nat) (t : Text) : Option (Nat × Text) := do
  let digits := t.take count
  let n ← Decimal.readNatural? digits
  if digits.length = count ∧ low ≤ n ∧ n ≤ high then some (n, t.drop count) else none

/-- What follows a character. -/
def after? (c : Char) : Text → Option Text
  | [] => none
  | d :: rest => if c = d then some rest else none

def daysOf (year month : Nat) : Nat :=
  if month = 2 then
    if year % 4 = 0 ∧ (year % 100 ≠ 0 ∨ year % 400 = 0) then 29 else 28
  else if month = 4 ∨ month = 6 ∨ month = 9 ∨ month = 11 then 30
  else 31

/-- A date at the start of a text, and what follows it. -/
def date? (t : Text) : Option (Text × Text) := do
  let (year, rest) ← fixed? 4 0 9999 t
  let (month, rest) ← fixed? 2 1 12 (← after? '-' rest)
  let (_, rest) ← fixed? 2 1 (daysOf year month) (← after? '-' rest)
  some (t.take 10, rest)

/-- The part of a second behind a point, to nine places and without zeros at the end. -/
def secondFraction (digits : Text) : Text :=
  let shown := ((digits.take 9).reverse.dropWhile (· = '0')).reverse
  if shown = [] then [] else '.' :: shown

/-- A time at the start of a text, and what follows it. -/
def time? (t : Text) : Option (Text × Text) := do
  let (_, rest) ← fixed? 2 0 23 t
  let (_, rest) ← fixed? 2 0 59 (← after? ':' rest)
  let (_, rest) ← fixed? 2 0 60 (← after? ':' rest)
  match rest with
  | '.' :: rest =>
    let digits := rest.takeWhile Char.isDigit
    if digits = [] then none
    else some (t.take 8 ++ secondFraction digits, rest.drop digits.length)
  | rest => some (t.take 8, rest)

/-- The whole text as an offset from universal time; it may be missing. An offset of nothing is
positive. -/
def offset? : Text → Option Text
  | [] => some []
  | ['Z'] => some ['Z']
  | ['z'] => some ['Z']
  | sign :: rest => do
    if sign ≠ '+' ∧ sign ≠ '-' then none
    else
      let (hours, more) ← fixed? 2 0 23 rest
      let (minutes, final) ← fixed? 2 0 59 (← after? ':' more)
      if final = [] then some ((if hours + minutes = 0 then '+' else sign) :: rest) else none

/-- The whole text as a date, a time, or both with `T` between them and perhaps an offset. -/
def moment? (t : Text) : Option Node :=
  match date? t with
  | some (date, []) => some (.moment date)
  | some (date, mark :: rest) => do
    if mark ≠ 'T' ∧ mark ≠ 't' ∧ mark ≠ ' ' then none
    else
      let (time, rest) ← time? rest
      some (.moment (Text.join [date, "T", time, ← offset? rest]))
  | none => do
    let (time, rest) ← time? t
    if rest = [] then some (.moment time) else none

/-! ## Words -/

def word? (t : Text) : Option Node :=
  if t = "true".toList then some (.boolean true)
  else if t = "false".toList then some (.boolean false)
  else (special? t).orElse fun _ => (moment? t).orElse fun _ =>
    (decimal? t).orElse fun _ => integer? t

def isWordChar (c : Char) : Bool :=
  c.isAlphanum || c = '_' || c = '+' || c = '-' || c = '.' || c = ':'

/-- Reads the value of the word at the start of a text. A date goes on behind a space if a time
follows there. -/
def readWord? (t : Text) : Option (Node × Text) :=
  let word := t.takeWhile isWordChar
  let rest := t.drop word.length
  let longer := match date? word, rest with
    | some (_, []), ' ' :: more =>
      if (time? more).isSome then word ++ ' ' :: more.takeWhile isWordChar else word
    | _, _ => word
  (word? longer).map fun v => (v, t.drop longer.length)

end QuantumDiagram.Toml
