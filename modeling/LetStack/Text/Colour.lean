import LetStack.Text.Bytes

/-!
Coloured text for terminals. A style is written in front of the text and taken back behind it.
-/

namespace LetStack.Text

inductive Colour where
  | red | green | yellow | blue | cyan
  deriving DecidableEq, Repr, Inhabited

def Colour.code : Colour → Nat
  | red => 31
  | green => 32
  | yellow => 33
  | blue => 34
  | cyan => 36

structure Style where
  colour : Option Colour := none
  bold : Bool := false
  deriving DecidableEq, Repr, Inhabited

namespace Style

/-- The numbers that switch a style on, each with the number that switches it off. -/
def codes (s : Style) : List (Nat × Nat) :=
  (match s.colour with
    | some c => [(c.code, 0)]
    | none => []) ++ (if s.bold then [(1, 22)] else [])

def sequence (numbers : List Nat) : Bytes :=
  "\x1b[" ++ Bytes.join ";" (numbers.map Bytes.ofNat) ++ "m"

/-- The text in the style, or as it is when colours are off. -/
def paint (s : Style) (coloured : Bool) (x : Bytes) : Bytes :=
  if coloured then sequence (s.codes.map (·.1)) ++ x ++ sequence (s.codes.map (·.2)) else x

end Style

end LetStack.Text
