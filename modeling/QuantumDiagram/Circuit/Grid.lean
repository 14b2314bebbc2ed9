import QuantumDiagram.Circuit.Instruction
import Std.Data.ExtTreeMap

/-!
# The grid of a circuit

A grid holds at most one instruction in each site, that is, in each channel and column. Grids that
agree at every site are equal (`Grid.ext`), and their cells are listed by channel and then by
column; `Grid.rows` holds them sorted into rows (`Grid.getD_rows`).
-/

namespace QuantumDiagram

/-- A place in the grid. -/
structure Site where
  channel : Channel
  column : Nat
deriving DecidableEq, Repr

namespace Site

instance : Ord Site := ⟨compareLex (compareOn channel) (compareOn column)⟩

theorem compare_def (s t : Site) :
    compare s t = compareLex (compareOn channel) (compareOn column) s t := rfl

instance : Std.TransOrd Site :=
  inferInstanceAs (Std.TransCmp (compareLex (compareOn channel) (compareOn column)))

instance : Std.LawfulEqOrd Site where
  eq_of_compare {s t} h := by
    rw [compare_def, compareLex_eq_eq] at h
    obtain ⟨c, i⟩ := s
    obtain ⟨d, j⟩ := t
    simp_all [compareOn]

end Site

/-- A finite assignment of instructions to sites. -/
structure Grid where
  cells : Std.ExtTreeMap Site Instruction

namespace Grid

def empty : Grid := ⟨∅⟩

instance : Inhabited Grid := ⟨empty⟩

def get? (g : Grid) (c : Channel) (column : Nat) : Option Instruction :=
  g.cells[(⟨c, column⟩ : Site)]?

def isOccupied (g : Grid) (c : Channel) (column : Nat) : Bool := (g.get? c column).isSome

/-- Puts an instruction into the cell of `c` in its own column. -/
def put (g : Grid) (c : Channel) (i : Instruction) : Grid := ⟨g.cells.insert ⟨c, i.column⟩ i⟩

/-- Puts one copy of an instruction into the cell of each participant. -/
def place (g : Grid) (i : Instruction) : Grid :=
  i.participants.toList.foldl (fun g c => g.put c i) g

/-- The cells by channel and then by column. -/
def toList (g : Grid) : List (Site × Instruction) := g.cells.toList

/-- Sorts cells into rows, in which they keep their order. -/
def rowsOf (cells : List (Site × Instruction)) :
    Std.ExtTreeMap Channel (List (Site × Instruction)) :=
  cells.foldr (fun cell rows =>
    rows.insert cell.1.channel (cell :: rows.getD cell.1.channel [])) ∅

/-- The cells of each channel that holds any, by column. -/
def rows (g : Grid) : Std.ExtTreeMap Channel (List (Site × Instruction)) := rowsOf g.toList

def size (g : Grid) : Nat := g.cells.size

def lastColumn? (g : Grid) : Option Nat := (g.toList.map (·.1.column)).max?

theorem ext {g h : Grid} (same : ∀ c column, g.get? c column = h.get? c column) : g = h := by
  obtain ⟨m⟩ := g
  obtain ⟨n⟩ := h
  congr 1
  exact Std.ExtTreeMap.ext_getElem? fun s => same s.channel s.column

@[simp] theorem get?_empty (c : Channel) (column : Nat) : empty.get? c column = none := by
  simp [empty, get?]

theorem get?_put (g : Grid) (d : Channel) (i : Instruction) (c : Channel) (column : Nat) :
    (g.put d i).get? c column = if d = c ∧ i.column = column then some i else g.get? c column := by
  simp only [put, get?, Std.ExtTreeMap.getElem?_insert, Std.LawfulEqOrd.compare_eq_iff_eq,
    Site.mk.injEq]

theorem get?_foldl_put (i : Instruction) (cs : List Channel) (g : Grid) (c : Channel)
    (column : Nat) :
    (cs.foldl (fun g c => g.put c i) g).get? c column =
      if c ∈ cs ∧ i.column = column then some i else g.get? c column := by
  induction cs generalizing g with
  | nil => simp
  | cons d cs ih =>
    rw [List.foldl_cons, ih, get?_put]
    by_cases hc : d = c
    · subst hc
      by_cases hk : i.column = column <;> simp [hk]
    · simp [hc, Ne.symm hc]

/-- A placed instruction is in the cells of its participants, and nothing else changes. -/
theorem get?_place (g : Grid) (i : Instruction) (c : Channel) (column : Nat) :
    (g.place i).get? c column =
      if c ∈ i.participants ∧ i.column = column then some i else g.get? c column :=
  get?_foldl_put i i.participants.toList g c column

theorem mem_toList {g : Grid} {s : Site} {i : Instruction} :
    (s, i) ∈ g.toList ↔ g.get? s.channel s.column = some i :=
  Std.ExtTreeMap.mem_toList_iff_getElem?_eq_some

theorem getD_rowsOf (cells : List (Site × Instruction)) (c : Channel) :
    (rowsOf cells).getD c [] = cells.filter fun cell => cell.1.channel = c := by
  induction cells with
  | nil => simp [rowsOf]
  | cons cell rest ih =>
    rw [rowsOf, List.foldr_cons, ← rowsOf, Std.ExtTreeMap.getD_insert, List.filter_cons]
    by_cases h : cell.1.channel = c <;> simp [h, ih]

theorem mem_rowsOf {cells : List (Site × Instruction)} {c : Channel} :
    c ∈ rowsOf cells ↔ ∃ cell ∈ cells, cell.1.channel = c := by
  induction cells with
  | nil => simp [rowsOf]
  | cons cell rest ih =>
    rw [rowsOf, List.foldr_cons, ← rowsOf, Std.ExtTreeMap.mem_insert, ih]
    simp

/-- A row holds the cells of its channel. -/
theorem getD_rows (g : Grid) (c : Channel) :
    g.rows.getD c [] = g.toList.filter fun cell => cell.1.channel = c :=
  getD_rowsOf g.toList c

/-- There is a row for each channel that holds a cell. -/
theorem mem_rows {g : Grid} {c : Channel} :
    c ∈ g.rows ↔ ∃ column i, g.get? c column = some i := by
  simp only [rows, mem_rowsOf, Prod.exists, mem_toList]
  exact ⟨fun ⟨s, i, h, hc⟩ => ⟨s.column, i, hc ▸ h⟩, fun ⟨column, i, h⟩ => ⟨⟨c, column⟩, i, h, rfl⟩⟩

end Grid

end QuantumDiagram
