import Mathlib.Logic.ExistsUnique
import QuantumDiagram.Channel

/-!
# Rows and names of channels

A circuit declares the channels whose index is less than its number of qubits. Each of them has a
row of its own (`Channel.existsUnique_row`), and they come in the order of their rows
(`Channel.compare_row`). A text names one of them just if it is the letter of its kind with digits
of its index behind it (`Channel.read?_eq_some`).
-/

namespace QuantumDiagram.Channel

variable {qubits r : Nat} {c d : Channel}

/-! ## Rows -/

theorem index_ofRow_lt (h : r < 2 * qubits) : (ofRow qubits r).index < qubits := by
  unfold ofRow
  split <;> simp only [index] <;> omega

theorem row_lt (h : c.index < qubits) : c.row qubits < 2 * qubits := by
  cases c <;> simp only [index, row] at h ⊢ <;> omega

theorem ofRow_row (h : c.index < qubits) : ofRow qubits (c.row qubits) = c := by
  cases c with
  | qubit i => exact if_pos h
  | bit i => simp [ofRow, row]

theorem row_ofRow (r : Nat) : (ofRow qubits r).row qubits = r := by
  unfold ofRow
  split
  · rfl
  · simp only [row]
    omega

theorem row_eq_iff (hc : c.index < qubits) (hd : d.index < qubits) :
    c.row qubits = d.row qubits ↔ c = d := by
  constructor
  · intro h
    rw [← ofRow_row hc, h, ofRow_row hd]
  · rintro rfl
    rfl

theorem existsUnique_row (h : r < 2 * qubits) :
    ∃! c : Channel, c.index < qubits ∧ c.row qubits = r := by
  refine ⟨ofRow qubits r, ⟨index_ofRow_lt h, row_ofRow r⟩, ?_⟩
  rintro c ⟨hc, rfl⟩
  exact (ofRow_row hc).symm

theorem mem_all : c ∈ all qubits ↔ c.index < qubits := by
  simp only [all, List.mem_map, List.mem_range]
  constructor
  · rintro ⟨r, hr, rfl⟩
    exact index_ofRow_lt hr
  · intro hc
    exact ⟨c.row qubits, row_lt hc, ofRow_row hc⟩

/-! ## The order of rows -/

theorem compare_ofRow (qubits r t : Nat) :
    compare (ofRow qubits r) (ofRow qubits t) = compare r t := by
  unfold ofRow
  split
  · split
    · rfl
    · exact (Nat.compare_eq_lt.2 (by omega)).symm
  · split
    · exact (Nat.compare_eq_gt.2 (by omega)).symm
    · have hlt : r - qubits < t - qubits ↔ r < t := by omega
      have hgt : t - qubits < r - qubits ↔ t < r := by omega
      show compare (r - qubits) (t - qubits) = compare r t
      simp only [Nat.compare_eq_ite_lt, hlt, hgt]

/-- Declared channels come in the order of their rows. -/
theorem compare_row (hc : c.index < qubits) (hd : d.index < qubits) :
    compare c d = compare (c.row qubits) (d.row qubits) := by
  rw [← compare_ofRow qubits, ofRow_row hc, ofRow_row hd]

theorem pairwise_all (qubits : Nat) : (all qubits).Pairwise fun c d => compare c d = .lt := by
  refine List.pairwise_map.2 (List.pairwise_lt_range.imp fun hlt => ?_)
  rw [compare_ofRow, Nat.compare_eq_lt]
  exact hlt

theorem ne_of_lt (h : compare c d = .lt) : c ≠ d := by
  rintro rfl
  simp at h

/-! ## Names -/

/-- The letter that the names of the channel's kind begin with. -/
def letter : Channel → Char
  | qubit _ => 'q'
  | bit _ => 'b'

theorem text_eq (c : Channel) : c.text = c.letter :: Decimal.natural c.index := by
  cases c <;> rfl

theorem read?_eq_some {t : Text} : read? qubits t = some c ↔
    ∃ digits, t = c.letter :: digits ∧ Decimal.readNatural? digits = some c.index ∧
      c.index < qubits := by
  have hfound (ofIndex : Nat → Channel) (digits : Text) :
      ((Decimal.readNatural? digits).filter (· < qubits)).map ofIndex = some c ↔
        ∃ i, Decimal.readNatural? digits = some i ∧ i < qubits ∧ ofIndex i = c := by
    simp [Option.filter_eq_some_iff, and_assoc]
  constructor
  · intro h
    unfold read? at h
    split at h
    · obtain ⟨i, hread, hi, rfl⟩ := (hfound _ _).1 h
      exact ⟨_, rfl, hread, hi⟩
    · obtain ⟨i, hread, hi, rfl⟩ := (hfound _ _).1 h
      exact ⟨_, rfl, hread, hi⟩
    · cases h
  · rintro ⟨digits, rfl, hread, hindex⟩
    cases c with
    | qubit i => exact (hfound qubit digits).2 ⟨i, hread, hindex, rfl⟩
    | bit i => exact (hfound bit digits).2 ⟨i, hread, hindex, rfl⟩

theorem index_lt_of_read? {t : Text} (h : read? qubits t = some c) : c.index < qubits := by
  obtain ⟨_, _, _, hindex⟩ := read?_eq_some.1 h
  exact hindex

theorem read?_text (h : c.index < qubits) : read? qubits c.text = some c :=
  read?_eq_some.2 ⟨_, c.text_eq, Decimal.readNatural?_natural _, h⟩

theorem text_inj : c.text = d.text ↔ c = d := by
  constructor
  · intro h
    have hd : d.index < c.index + d.index + 1 := by omega
    have hc : c.index < c.index + d.index + 1 := by omega
    rw [← Option.some_inj, ← read?_text hc, h, read?_text hd]
  · rintro rfl
    rfl

end QuantumDiagram.Channel
