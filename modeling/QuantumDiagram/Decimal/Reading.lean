import QuantumDiagram.Decimal.Digits

/-!
# Reading floating-point numbers

A decimal number is an optional sign, digits with at most one point among or beside them, and an
optional exponent; beside these the words for infinity and for not-a-number are read, in any case of
letters. The value is the floating-point number nearest to the decimal, a tie going to the even
significand; beyond the greatest number it is infinite, and near zero it is zero.
-/

namespace QuantumDiagram.Decimal

/-- The floating-point number nearest to `k · 10 ^ place`. Exponents that settle the result are cut
off first, since their powers of ten would be astronomically large. -/
def nearest (k : Nat) (place : Int) : Float :=
  let magnitude := place + (natural k).length
  if k = 0 ∨ magnitude < -400 then 0
  else if 400 < magnitude then 1 / 0
  else Float.ofScientific k (place < 0) place.natAbs

/-- The sign in front of a number (`true` for a minus) and what follows it. -/
def readSign : Text → Bool × Text
  | '-' :: rest => (true, rest)
  | '+' :: rest => (false, rest)
  | rest => (false, rest)

/-- The power of ten that a decimal ends with: nothing, or `e` and an integer. -/
def readExponent? : Text → Option Int
  | [] => some 0
  | mark :: rest =>
    if mark = 'e' ∨ mark = 'E' then
      let (negative, digits) := readSign rest
      (readNatural? digits).map fun n => if negative then -(n : Int) else n
    else none

def readMagnitude? (t : Text) : Option Float :=
  let whole := t.takeWhile Char.isDigit
  let (fraction, rest) : Text × Text :=
    match t.dropWhile Char.isDigit with
    | '.' :: rest => (rest.takeWhile Char.isDigit, rest.dropWhile Char.isDigit)
    | rest => ([], rest)
  if whole = [] ∧ fraction = [] then none
  else
    (readExponent? rest).map fun e => nearest (naturalOf (whole ++ fraction)) (e - fraction.length)

/-- The value of a word for infinity or for not-a-number. -/
def readNamed? (t : Text) : Option Float :=
  let word := Text.lower t
  if word = "inf".toList ∨ word = "infinity".toList then some (1 / 0)
  else if word = "nan".toList then some (0 / 0)
  else none

/-- The value of a floating-point literal; `none` for any other text. -/
def readFloat? (t : Text) : Option Float :=
  let (negative, body) := readSign t
  ((readNamed? body).orElse fun _ => readMagnitude? body).map fun x => if negative then -x else x

end QuantumDiagram.Decimal
