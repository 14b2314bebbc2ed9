import QuantumDiagram.Text.Span

/-!
# Stretches of a longer text

A stretch is a part of a longer text together with the byte offset at which it begins there.
`Stretch.split` cuts one at every occurrence of a separator. Main statements: there is one part more
than separators (`length_split`), and no part holds the separator (`not_mem_split`).
-/

namespace QuantumDiagram

/-- A part of a longer text. -/
structure Stretch where
  offset : Nat
  text : Text
deriving DecidableEq

namespace Stretch

/-- The span of the stretch without the blanks at its ends. -/
def span (s : Stretch) : Span := Span.ofTrimmed s.offset s.text

/-- Places texts one after the other from `offset` on, with `gap` bytes between neighbours. -/
def placeFrom (gap offset : Nat) : List Text → List Stretch
  | [] => []
  | t :: rest => ⟨offset, t⟩ :: placeFrom gap (offset + Text.byteLength t + gap) rest

/-- The parts between the occurrences of `separator`, in order. -/
def split (separator : Char) (s : Stretch) : List Stretch :=
  placeFrom separator.utf8Size s.offset (s.text.splitOn separator)

/-- The stretch that is left when `dropped` is taken off the front. -/
def dropWhile (s : Stretch) (dropped : Char → Bool) : Stretch :=
  ⟨s.offset + Text.byteLength (s.text.takeWhile dropped), s.text.dropWhile dropped⟩

/-- The stretch up to the first character that is not `kept`. -/
def takeWhile (s : Stretch) (kept : Char → Bool) : Stretch := ⟨s.offset, s.text.takeWhile kept⟩

@[simp] theorem map_text_placeFrom (gap offset : Nat) (ts : List Text) :
    (placeFrom gap offset ts).map text = ts := by
  induction ts generalizing offset with
  | nil => rfl
  | cons t ts ih => simp [placeFrom, ih]

theorem map_text_split (separator : Char) (s : Stretch) :
    (s.split separator).map text = s.text.splitOn separator :=
  map_text_placeFrom ..

theorem length_splitOn (separator : Char) (t : Text) :
    (t.splitOn separator).length = t.count separator + 1 := by
  induction t with
  | nil => rfl
  | cons c t ih =>
    rw [List.splitOn_cons_eq_if_modifyHead, List.count_cons]
    split <;> simp_all

theorem not_mem_of_mem_splitOn {separator : Char} {t part : Text}
    (h : part ∈ t.splitOn separator) : separator ∉ part := by
  induction t generalizing part with
  | nil => simp_all
  | cons c t ih =>
    rw [List.splitOn_cons_eq_if_modifyHead] at h
    split at h
    · rcases List.mem_cons.1 h with rfl | h
      · simp
      · exact ih h
    · rename_i hc
      cases hs : t.splitOn separator with
      | nil => simp [hs] at h
      | cons first rest =>
        rw [hs] at h ih
        rcases List.mem_cons.1 h with rfl | h
        · have := ih List.mem_cons_self
          simp only [beq_iff_eq] at hc
          simp [this, Ne.symm hc]
        · exact ih (List.mem_cons_of_mem _ h)

theorem length_split (separator : Char) (s : Stretch) :
    (s.split separator).length = s.text.count separator + 1 := by
  rw [← length_splitOn, ← map_text_split, List.length_map]

theorem not_mem_split {separator : Char} {s part : Stretch} (h : part ∈ s.split separator) :
    separator ∉ part.text := by
  refine not_mem_of_mem_splitOn (t := s.text) ?_
  rw [← map_text_split]
  exact List.mem_map_of_mem h

end Stretch

end QuantumDiagram
