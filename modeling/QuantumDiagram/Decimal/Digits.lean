import QuantumDiagram.Text

/-!
# Whole numbers in decimal notation

`natural` writes a natural number with the ASCII digits and no superfluous zero; `readNatural?`
reads any non-empty run of ASCII digits, leading zeros included, of any length. Main statements:
what is written reads back (`readNatural?_natural`), so different numbers have different texts
(`natural_injective`).
-/

namespace QuantumDiagram.Decimal

def natural (n : Nat) : Text := Nat.toDigits 10 n

/-- The decimal text of an integer: a hyphen before the digits of a negative one. -/
def integer : Int → Text
  | .ofNat n => natural n
  | .negSucc n => '-' :: natural (n + 1)

def naturalOf (digits : Text) : Nat := Nat.ofDigitChars 10 digits 0

/-- The number that a non-empty run of ASCII digits stands for; `none` for any other text. -/
def readNatural? (t : Text) : Option Nat :=
  if t ≠ [] ∧ t.all Char.isDigit then some (naturalOf t) else none

theorem natural_ne_nil (n : Nat) : natural n ≠ [] := Nat.toDigits_ne_nil

theorem all_isDigit_natural (n : Nat) : (natural n).all Char.isDigit = true :=
  List.all_eq_true.2 fun _ h => Nat.isDigit_of_mem_toDigits (by decide) (by decide) h

@[simp] theorem readNatural?_natural (n : Nat) : readNatural? (natural n) = some n := by
  rw [readNatural?, if_pos ⟨natural_ne_nil n, all_isDigit_natural n⟩, naturalOf, natural,
    Nat.ofDigitChars_toDigits (by decide) (by decide)]

theorem natural_injective {m n : Nat} (h : natural m = natural n) : m = n :=
  Option.some.inj (by rw [← readNatural?_natural m, h, readNatural?_natural])

end QuantumDiagram.Decimal
