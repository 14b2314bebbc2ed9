/-!
# Texts

A text is the list of its characters. A position in a text is an offset into its UTF-8 form, counted
in bytes, so `Text.byteLength` is the measure by which positions add up (`byteLength_append`).
A string literal stands for its text.
-/

namespace QuantumDiagram

/-- A finite sequence of Unicode characters. -/
abbrev Text := List Char

instance : Coe String Text := ⟨String.toList⟩

namespace Text

/-- The number of bytes of the UTF-8 form. -/
def byteLength (t : Text) : Nat := t.foldr (fun c n => c.utf8Size + n) 0

@[simp] theorem byteLength_nil : byteLength [] = 0 := rfl

@[simp] theorem byteLength_cons (c : Char) (t : Text) :
    byteLength (c :: t) = c.utf8Size + byteLength t := rfl

@[simp] theorem byteLength_append (s t : Text) :
    byteLength (s ++ t) = byteLength s + byteLength t := by
  induction s with
  | nil => simp
  | cons c s ih => simp only [List.cons_append, byteLength_cons, ih, Nat.add_assoc]

def join (ts : List Text) : Text := ts.flatten

/-- The texts one after the other, with `sep` between neighbours. -/
def joinWith (sep : Text) (ts : List Text) : Text := sep.intercalate ts

def line (ts : List Text) : Text := join ts ++ ['\n']

/-- The text with its ASCII capitals made small; all other characters stay. -/
def lower (t : Text) : Text := t.map Char.toLower

def startsWith (t s : Text) : Bool := s.isPrefixOf t

/-- The text before the first character that satisfies `p`; the whole text if none does. -/
def upTo (p : Char → Bool) (t : Text) : Text := t.takeWhile (! p ·)

def repeated (count : Nat) (c : Char) : Text := List.replicate count c

end Text

end QuantumDiagram
