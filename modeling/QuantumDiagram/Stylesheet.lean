import QuantumDiagram.Text

/-!
# Stylesheets

A stylesheet gives colours to named tokens and chooses the font. Every drawing uses a fixed list of
tokens; what a stylesheet leaves out is taken from the default palette. Colours are kept in the
order of their tokens, each token once.
-/

namespace QuantumDiagram

/-- Colours by token, in increasing order of the tokens by code points. -/
abbrev Palette := List (Text × Text)

namespace Palette

def get? (p : Palette) (token : Text) : Option Text := p.lookup token

def set (p : Palette) (token color : Text) : Palette :=
  match p with
  | [] => [(token, color)]
  | (t, c) :: rest =>
    if token = t then (token, color) :: rest
    else if token < t then (token, color) :: (t, c) :: rest
    else (t, c) :: set rest token color

/-- Gives all colours of a list, from left to right. -/
def setAll (p : Palette) (colors : List (Text × Text)) : Palette :=
  colors.foldl (fun p (token, color) => p.set token color) p

def default : Palette :=
  setAll [] [("background", "#ffffff"), ("wire", "#000000"), ("gate-fill", "#ffffff"),
    ("gate-stroke", "#000000"), ("text", "#000000"), ("node", "#000000"), ("subroutine", "#333333")]

end Palette

structure Stylesheet where
  name : Option Text := none
  description : Option Text := none
  colors : Palette
  /-- The font of labels and captions. -/
  fontFamily : Text := "'Bookman Old Style', Century, Courier, serif".toList
  fontSize : Float := 14

namespace Stylesheet

def default : Stylesheet where
  colors := .default

def tokens : List Text :=
  ["background", "wire", "gate-fill", "gate-stroke", "text", "node", "subroutine"]

/-- The colour that the stylesheet itself gives to a token. -/
def color? (s : Stylesheet) (token : Text) : Option Text := s.colors.get? token

/-- The colour of a token that has none in the default palette either: surfaces are white and all
else is black. -/
def lastResort (token : Text) : Text :=
  if token = "background".toList ∨ token = "gate-fill".toList then "#ffffff" else "#000000"

def color (s : Stylesheet) (token : Text) : Text :=
  ((s.color? token).orElse fun _ => Palette.default.get? token).getD (lastResort token)

/-- The colours of all tokens that a drawing uses, and of all others that the stylesheet has. -/
def resolved (s : Stylesheet) : Palette :=
  (Palette.setAll [] (tokens.map fun t => (t, s.color t))).setAll s.colors

end Stylesheet

end QuantumDiagram
