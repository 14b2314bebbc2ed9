import QuantumDiagram.Decimal.Binary64
import QuantumDiagram.Decimal.Digits

/-!
# The shortest decimal of a floating-point number

Of the decimals that read back as a given number, the one with the fewest digits is written, and of
several such the nearest to the number. The decimals that read back are those in an interval around
the number whose ends lie half way to its neighbours, so the search looks for the coarsest grid
`10 ^ p` with a point in that interval, in whole-number arithmetic. The digits are always written
positionally, without an exponent and without a fraction of zero.
-/

namespace QuantumDiagram.Decimal

/-- The decimals that read back as one positive number: all quantities are multiples of a common
unit `2 ^ unit`. -/
structure Rounding where
  low : Nat
  value : Nat
  high : Nat
  unit : Int
  /-- Whether the two ends themselves read back as the number. -/
  closed : Bool
deriving DecidableEq, Repr

namespace Rounding

/-- The interval around `significand · 2 ^ exponent`. A tie between two numbers is read as the one
with the even significand. -/
def around (significand : Nat) (exponent : Int) : Rounding where
  low := 4 * significand -
    (if significand = Binary64.binadeStart ∧ Binary64.leastExponent < exponent then 1 else 2)
  value := 4 * significand
  high := 4 * significand + 2
  unit := exponent - 2
  closed := significand % 2 = 0

/-- Two factors that turn the comparison of `n · 2 ^ unit` with `k · 10 ^ place` into one of natural
numbers: that of `n * (factors).1` with `k * (factors).2`. -/
def factors (r : Rounding) (place : Int) : Nat × Nat :=
  (Nat.pow 2 r.unit.toNat * Nat.pow 10 (-place).toNat,
    Nat.pow 2 (-r.unit).toNat * Nat.pow 10 place.toNat)

def covers (r : Rounding) (place : Int) (k : Nat) : Bool :=
  let (ours, theirs) := r.factors place
  if r.closed then r.low * ours ≤ k * theirs && k * theirs ≤ r.high * ours
  else r.low * ours < k * theirs && k * theirs < r.high * ours

/-- The point of the grid `10 ^ place` that is chosen, if one reads back: of two neighbours of the
value the nearer, and the upper one of a tie. -/
def onGrid? (r : Rounding) (place : Int) : Option Nat :=
  let (ours, theirs) := r.factors place
  let below := r.value * ours / theirs
  let nearerBelow := decide (2 * (r.value * ours - below * theirs) < theirs)
  match r.covers place below, r.covers place (below + 1) with
  | true, true => some (if nearerBelow then below else below + 1)
  | true, false => some below
  | false, true => some (below + 1)
  | false, false => none

/-- The point on the first grid that has one, among `count` grids from `10 ^ place` downwards. -/
def firstFrom (r : Rounding) : (count : Nat) → (place : Int) → Nat × Int
  | 0, place => (0, place)
  | count + 1, place =>
    match r.onGrid? place with
    | some k => (k, place)
    | none => r.firstFrom count (place - 1)

/-- The shortest decimal `k · 10 ^ place`. No number exceeds `10 ^ 309`, and the grid `10 ^ -324` is
finer than the distance of any two numbers. -/
def shortest (r : Rounding) : Nat × Int := r.firstFrom 634 309

end Rounding

/-- The positional text of `k · 10 ^ place`, where `k` is not divisible by ten unless it is zero. -/
def positional (k : Nat) (place : Int) : Text :=
  let digits := natural k
  if 0 ≤ place then digits ++ Text.repeated place.toNat '0'
  else
    let places := (-place).toNat
    let padded := Text.repeated (places + 1 - digits.length) '0' ++ digits
    padded.take (padded.length - places) ++ '.' :: padded.drop (padded.length - places)

def floating (x : Float) : Text :=
  let signed (negative : Bool) (t : Text) : Text := if negative then '-' :: t else t
  match Binary64.decode x with
  | .finite negative significand exponent =>
    if significand = 0 then signed negative "0"
    else
      let (k, place) := (Rounding.around significand exponent).shortest
      signed negative (positional k place)
  | .infinite negative => signed negative "inf"
  | .notANumber => "NaN"

end QuantumDiagram.Decimal
