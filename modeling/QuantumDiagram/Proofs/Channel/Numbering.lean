import Mathlib.Data.Nat.Digits.Defs
import QuantumDiagram.Proofs.Channel.Rows
import QuantumDiagram.Proofs.Statement.Forms

/-!
# The numbering of channels

The index in the name of a channel is written with any number of digits, each of which counts with
the power of ten of its place (`Decimal.value`). It may be read into a word of limited size if each
overflow is noticed: a number that a word cannot hold is larger than every index, so the same names
are refused (`Channel.readInWords?_eq`). Names, rows and the order of channels then fit together,
and a word can hold every row (`Channel.names_and_rows_agree`).
-/

namespace QuantumDiagram

namespace Decimal

/-! ## The value of digits -/

/-- The sum of the digits, each times the power of ten of its place. -/
def value (digits : Text) : Nat :=
  Nat.ofDigits 10 (digits.map fun c => c.toNat - '0'.toNat).reverse

theorem naturalOf_eq_value (digits : Text) : naturalOf digits = value digits := by
  induction digits with
  | nil => rfl
  | cons c digits ih =>
    rw [naturalOf, Nat.ofDigitChars_cons, Nat.mul_zero, Nat.zero_add,
      Nat.ofDigitChars_eq_ofDigitChars_zero, ← naturalOf, ih, value, value, List.map_cons,
      Nat.ofDigits_reverse_cons, List.length_map, Nat.add_comm]

theorem readNatural?_eq_some {t : Text} {n : Nat} :
    readNatural? t = some n ↔ Lexeme.IsDigits t ∧ value t = n := by
  rw [← naturalOf_eq_value]
  constructor
  · intro h
    obtain ⟨⟨hne, hall⟩, hvalue⟩ := Option.ite_none_right_eq_some.1 h
    exact ⟨⟨hne, List.all_eq_true.1 hall⟩, Option.some.inj hvalue⟩
  · rintro ⟨hdigits, rfl⟩
    exact Lexeme.readNatural?_digits hdigits

/-! ## Words -/

/-- The number, if a word whose largest number is `largest` can hold it. -/
def inWord? (largest n : Nat) : Option Nat := if n ≤ largest then some n else none

/-- Puts a digit behind a number; the word has to hold the tens, and then the sum. -/
def pushDigit? (largest n : Nat) (c : Char) : Option Nat := do
  let tens ← inWord? largest (10 * n)
  inWord? largest (tens + (c.toNat - '0'.toNat))

/-- Reads digits into a word, from left to right; `none` at the first overflow. -/
def readWord? (largest : Nat) (t : Text) : Option Nat :=
  if t ≠ [] ∧ t.all Char.isDigit then t.foldlM (pushDigit? largest) 0 else none

variable {largest n : Nat}

theorem pushDigit?_eq (largest n : Nat) (c : Char) :
    pushDigit? largest n c = inWord? largest (10 * n + (c.toNat - '0'.toNat)) := by
  unfold pushDigit? inWord?
  by_cases htens : 10 * n ≤ largest
  · rw [if_pos htens]
    rfl
  · rw [if_neg htens, if_neg (by omega)]
    rfl

/-- Further digits never make a number smaller. -/
theorem le_ofDigitChars (t : Text) (n : Nat) : n ≤ Nat.ofDigitChars 10 t n := by
  rw [Nat.ofDigitChars_eq_ofDigitChars_zero]
  exact Nat.le_add_right_of_le (Nat.le_mul_of_pos_left n (Nat.pow_pos (by decide)))

/-- A number that fits at the end has fitted all the way. -/
theorem foldlM_pushDigit? (t : Text) (h : n ≤ largest) :
    t.foldlM (pushDigit? largest) n = inWord? largest (Nat.ofDigitChars 10 t n) := by
  induction t generalizing n with
  | nil => exact (if_pos h).symm
  | cons c t ih =>
    rw [List.foldlM_cons, pushDigit?_eq, Nat.ofDigitChars_cons]
    by_cases hpushed : 10 * n + (c.toNat - '0'.toNat) ≤ largest
    · rw [inWord?, if_pos hpushed]
      exact ih hpushed
    · have hgrown := le_ofDigitChars t (10 * n + (c.toNat - '0'.toNat))
      rw [inWord?, if_neg hpushed, inWord?, if_neg (by omega)]
      rfl

/-- **A word takes just the numbers that it can hold**: an overflow is noticed wherever it is. -/
theorem readWord?_eq (largest : Nat) (t : Text) :
    readWord? largest t = (readNatural? t).filter (· ≤ largest) := by
  unfold readWord? readNatural?
  split
  · rw [foldlM_pushDigit? t (Nat.zero_le _), naturalOf, Option.filter_some, inWord?]
    simp only [decide_eq_true_eq]
  · rfl

theorem readWord?_eq_none {digits : Text} (h : Lexeme.IsDigits digits)
    (hlarge : largest < value digits) : readWord? largest digits = none := by
  rw [readWord?_eq, readNatural?_eq_some.2 ⟨h, rfl⟩]
  exact Option.filter_some_neg (by simpa using hlarge)

end Decimal

namespace Channel

open Decimal (value)
open Lexeme (IsDigits)

variable {qubits largest : Nat} {c : Channel}

/-! ## Names -/

/-- A name is the letter of the kind with digits behind it, whose value is the index. -/
theorem read?_iff_digits {t : Text} : read? qubits t = some c ↔
    ∃ digits, t = c.letter :: digits ∧ IsDigits digits ∧ value digits = c.index ∧
      c.index < qubits := by
  simp only [read?_eq_some, Decimal.readNatural?_eq_some, and_assoc]

/-- Digits of a number that is no index are not wrapped around to one that is. -/
theorem read?_eq_none {digits : Text} (h : qubits ≤ value digits) (kind : Char) :
    read? qubits (kind :: digits) = none := by
  refine Option.eq_none_iff_forall_ne_some.2 fun c hread => ?_
  obtain ⟨_, heq, -, hvalue, hindex⟩ := read?_iff_digits.1 hread
  obtain ⟨-, rfl⟩ := List.cons.inj heq
  omega

/-- The channel that a name stands for, with the index read into a word. -/
def readInWords? (largest qubits : Nat) : Text → Option Channel
  | 'q' :: digits => ((Decimal.readWord? largest digits).filter (· < qubits)).map qubit
  | 'b' :: digits => ((Decimal.readWord? largest digits).filter (· < qubits)).map bit
  | _ => none

/-- An index that overflows a word is none of the circuit's. -/
theorem readInWords?_eq (h : qubits ≤ largest) (t : Text) :
    readInWords? largest qubits t = read? qubits t := by
  have hfits : (fun n => decide (n ≤ largest) && decide (n < qubits)) =
      fun n => decide (n < qubits) := by
    funext n
    have hle : n < qubits → n ≤ largest := by omega
    simpa using hle
  have hindex (digits : Text) : (Decimal.readWord? largest digits).filter (· < qubits) =
      (Decimal.readNatural? digits).filter (· < qubits) := by
    rw [Decimal.readWord?_eq, Option.filter_filter, hfits]
  unfold readInWords?
  simp only [hindex]
  rfl

/-- **Names, rows and the order of channels agree**, if a word can hold twice the number of qubits.
The name of a declared channel reads back, and its row fits into a word and gives it back. A text
names it just if it is its letter with digits of its index; digits of a number that a word cannot
hold name nothing. Each row is that of one declared channel, and declared channels come in the order
of their rows. -/
theorem names_and_rows_agree (h : 2 * qubits ≤ largest) :
    (∀ c : Channel, c.index < qubits → read? qubits c.text = some c ∧
      c.row qubits ≤ largest ∧ ofRow qubits (c.row qubits) = c) ∧
    (∀ (c : Channel) (t : Text), read? qubits t = some c ↔
      ∃ digits, t = c.letter :: digits ∧ IsDigits digits ∧ value digits = c.index ∧
        c.index < qubits) ∧
    (∀ t, readInWords? largest qubits t = read? qubits t) ∧
    (∀ digits, IsDigits digits → largest < value digits →
      Decimal.readWord? largest digits = none ∧ ∀ kind, read? qubits (kind :: digits) = none) ∧
    (∀ r < 2 * qubits, ∃! c : Channel, c.index < qubits ∧ c.row qubits = r) ∧
    ∀ c d : Channel, c.index < qubits → d.index < qubits →
      (compare c d = .lt ↔ c.row qubits < d.row qubits) := by
  refine ⟨fun c hc => ⟨read?_text hc, ?_, ofRow_row hc⟩, fun _ _ => read?_iff_digits,
    readInWords?_eq (by omega), fun digits hdigits hlarge => ?_, fun _ => existsUnique_row,
    fun c d hc hd => ?_⟩
  · have hrow := row_lt hc
    omega
  · exact ⟨Decimal.readWord?_eq_none hdigits hlarge, read?_eq_none (by omega)⟩
  · rw [compare_row hc hd, Nat.compare_eq_lt]

/-- Words of 64 bits: zeros in front do not count, and an index that would be 1 if it were wrapped
around is refused. -/
theorem names_and_rows_agree_overflow :
    let largest := 18446744073709551615
    let digits := "18446744073709551617".toList
    2 * 3 ≤ largest ∧
      ((bit 2).index < 3 ∧ read? 3 (bit 2).text = some (bit 2) ∧
        ofRow 3 ((bit 2).row 3) = bit 2) ∧
      read? 3 "b002".toList = some (bit 2) ∧
      (IsDigits digits ∧ value digits = largest + 1 + 1 ∧ read? 3 ('q' :: digits) = none) ∧
      (4 < 2 * 3 ∧ ∃! c : Channel, c.index < 3 ∧ c.row 3 = 4) ∧
      ((qubit 2).index < 3 ∧ (bit 0).index < 3 ∧ compare (qubit 2) (bit 0) = .lt) := by
  intro largest digits
  have hword : 2 * 3 ≤ largest := by decide
  have hdigits : IsDigits digits := ⟨by decide, List.all_eq_true.1 (by decide)⟩
  have hzeros : IsDigits "002".toList := ⟨by decide, List.all_eq_true.1 (by decide)⟩
  have hvalue : value digits = largest + 1 + 1 := by decide +kernel
  obtain ⟨hchannels, hnames, -, hrefused, hrows, horder⟩ := names_and_rows_agree hword
  obtain ⟨hread, -, hrow⟩ := hchannels (bit 2) (by decide)
  refine ⟨hword, ⟨by decide, hread, hrow⟩,
    (hnames _ _).2 ⟨"002".toList, rfl, hzeros, by decide, by decide⟩,
    ⟨hdigits, hvalue, (hrefused digits hdigits (by omega)).2 'q'⟩, ⟨by decide, hrows 4 (by decide)⟩,
    by decide, by decide, (horder _ _ (by decide) (by decide)).2 (by decide)⟩

end Channel

end QuantumDiagram
