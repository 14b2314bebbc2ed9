/-!
# The value of a binary floating-point number

A finite number of 64 bits is a sign and a magnitude `significand · 2 ^ exponent`. `Binary64.decode`
reads these off the bits, so that what follows from the value (its shortest decimal, whether it is a
whole number) is decided in whole-number arithmetic.
-/

namespace QuantumDiagram.Decimal

/-- What the 64 bits of a floating-point number say. -/
inductive Binary64 where
  /-- The magnitude `significand · 2 ^ exponent` with its sign. -/
  | finite (negative : Bool) (significand : Nat) (exponent : Int)
  | infinite (negative : Bool)
  | notANumber
deriving DecidableEq, Repr

namespace Binary64

/-- The significand of the numbers that begin a binade: their lower neighbour is only half as far
away as the upper one. -/
def binadeStart : Nat := Nat.pow 2 52

/-- The exponent of the numbers next to zero. -/
def leastExponent : Int := -1074

/-- Reads the fields of the number: one bit of sign, eleven of exponent, fifty-two of fraction. -/
def decode (x : Float) : Binary64 :=
  let bits := x.toBits.toNat
  let negative := decide (Nat.pow 2 63 ≤ bits)
  let field := bits / binadeStart % 2048
  let fraction := bits % binadeStart
  if field = 2047 then
    if fraction = 0 then .infinite negative else .notANumber
  else if field = 0 then .finite negative fraction leastExponent
  else .finite negative (binadeStart + fraction) (leastExponent + ((field : Int) - 1))

/-- The natural number that the number is equal to, if it is one. -/
def natural? : Binary64 → Option Nat
  | .finite negative significand exponent =>
    if negative ∧ significand ≠ 0 then none
    else if 0 ≤ exponent then some (significand * Nat.pow 2 exponent.toNat)
    else
      let unit := Nat.pow 2 (-exponent).toNat
      if significand % unit = 0 then some (significand / unit) else none
  | .infinite _ => none
  | .notANumber => none

end Binary64

end QuantumDiagram.Decimal
