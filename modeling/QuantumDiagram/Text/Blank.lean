import QuantumDiagram.Text

/-!
# Blank characters, trimming and words

Blank are the characters with the Unicode property `White_Space`. A text is trimmed by dropping its
blank ends, and its words are the longest stretches without blanks.
-/

namespace QuantumDiagram.Text

/-- The code points with the property `White_Space`, as closed ranges in increasing order. -/
def blankRanges : List (Nat × Nat) :=
  [(0x09, 0x0D), (0x20, 0x20), (0x85, 0x85), (0xA0, 0xA0), (0x1680, 0x1680), (0x2000, 0x200A),
    (0x2028, 0x2029), (0x202F, 0x202F), (0x205F, 0x205F), (0x3000, 0x3000)]

/-- Whether the character has the property `White_Space`. -/
def isBlankChar (c : Char) : Bool := blankRanges.any fun r => r.1 ≤ c.toNat && c.toNat ≤ r.2

def isBlank (t : Text) : Bool := t.all isBlankChar

/-- The text without the blanks before its first other character. -/
def trimStart (t : Text) : Text := t.dropWhile isBlankChar

/-- The text without the blanks after its last other character. -/
def trimEnd (t : Text) : Text := (t.reverse.dropWhile isBlankChar).reverse

def trim (t : Text) : Text := trimEnd (trimStart t)

/-- The longest stretches without blanks, in order. -/
def words (t : Text) : List Text := (t.splitOnP isBlankChar).filter (· ≠ [])

def firstWord (t : Text) : Text := (words t).headD []

example : blankRanges.all (fun r => r.1 ≤ r.2) = true := by decide

example : (blankRanges.map fun r => r.2 + 1 - r.1).foldl (· + ·) 0 = 25 := by decide

end QuantumDiagram.Text
