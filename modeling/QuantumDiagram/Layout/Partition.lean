import QuantumDiagram.Geometry

/-!
# Dividing a surface into cells

A length is divided among entries with least sizes by giving each the same share of what is left
over, rounded toward zero; where the least sizes do not fit, the shares are negative and no entry
gets less than nothing. A frame is the partition of the drawing that widths and heights make up; its
columns and rows are bands that follow one another (`getElem?_bandsFrom`).
-/

namespace QuantumDiagram

/-- The number nearest to `n` among those of 32 bits. Differences that may leave that range, and
halves of sums, are cut off in this way. -/
def saturate (n : Int) : Int := max (-2147483648) (min n 2147483647)

def total (lengths : List Int) : Int := lengths.foldr (· + ·) 0

@[simp] theorem total_nil : total [] = 0 := rfl

@[simp] theorem total_cons (n : Int) (ns : List Int) : total (n :: ns) = n + total ns := rfl

/-- Divides `available` among entries with the given least sizes. -/
def distribute (minimums : List Int) (available : Int) : List Int :=
  let count : Int := minimums.length
  let leftover := saturate (available - total minimums)
  minimums.map fun least => max 0 (saturate ((least * count + leftover).tdiv count))

/-- Lengths laid one after the other, the first of them at `start`. -/
def bandsFrom (start : Int) : List Int → List Band
  | [] => []
  | length :: rest => ⟨start, length⟩ :: bandsFrom (start + length) rest

@[simp] theorem length_bandsFrom (start : Int) (lengths : List Int) :
    (bandsFrom start lengths).length = lengths.length := by
  induction lengths generalizing start with
  | nil => rfl
  | cons n ns ih => simp [bandsFrom, ih]

/-- A band begins after what is laid before it. -/
theorem getElem?_bandsFrom (start : Int) (lengths : List Int) (i : Nat) :
    (bandsFrom start lengths)[i]? =
      lengths[i]?.map fun length => ⟨start + total (lengths.take i), length⟩ := by
  induction lengths generalizing start i with
  | nil => simp [bandsFrom]
  | cons n ns ih => cases i <;> simp [bandsFrom, ih, Int.add_assoc]

/-- The widths of columns and the heights of rows. -/
structure Frame where
  widths : List Int
  heights : List Int
deriving DecidableEq, Repr

namespace Frame

def columns (f : Frame) : List Band := bandsFrom 0 f.widths

def rows (f : Frame) : List Band := bandsFrom 0 f.heights

/-- The columns from `start` up to `stop` as one. -/
def columnSpan (f : Frame) (start stop : Nat) : Band :=
  ⟨total (f.widths.take start), total ((f.widths.take stop).drop start)⟩

def bounds (f : Frame) : Box := ⟨0, 0, total f.widths, total f.heights⟩

end Frame

end QuantumDiagram
