import LetStack.Text.Utf8

/-!
Comparing texts without regard to case, as far as ASCII words are concerned. Two texts are the same up
to case if their characters are forms of the same letters: besides the capital letters, U+017F is a form
of `s` and U+212A one of `k`. The small form of a text matters where its bytes are counted.
-/

namespace LetStack.Text

/-- The small ASCII letter that a character is a form of, else the character itself. -/
def foldChar (c : Char) : Char :=
  if c.toNat = 0x17F then 's' else if c.toNat = 0x212A then 'k' else c.toLower

def fold (x : Bytes) : List Char := (Utf8.pieces x).map fun p => foldChar p.shown

/-- Whether two texts, one of which is ASCII, are equal up to case. -/
def sameFolded (x y : Bytes) : Bool := fold x == fold y

/-- Characters outside ASCII whose small form is an ASCII letter or takes another number of bytes, each
with that form. -/
def smallForms : List (Nat × Nat) :=
  [(0x130, 0x69), (0x23A, 0x2C65), (0x23E, 0x2C66), (0x1E9E, 0xDF), (0x2126, 0x3C9), (0x212A, 0x6B),
   (0x212B, 0xE5), (0x2C62, 0x26B), (0x2C64, 0x27D), (0x2C6D, 0x251), (0x2C6E, 0x271), (0x2C6F, 0x250),
   (0x2C70, 0x252), (0x2C7E, 0x23F), (0x2C7F, 0x240), (0xA78D, 0x265), (0xA7AA, 0x266), (0xA7AB, 0x25C),
   (0xA7AC, 0x261), (0xA7AD, 0x26C), (0xA7AE, 0x26A), (0xA7B0, 0x29E), (0xA7B1, 0x287), (0xA7B2, 0x29D),
   (0xA7C5, 0x282), (0xA7CB, 0x264), (0xA7DC, 0x19B)]

/-- The small form of a character. A letter outside ASCII whose small form is as long as itself stays as
it is: beside an ASCII word the two cannot be told apart. -/
def smallChar (c : Char) : Char :=
  match smallForms.lookup c.toNat with
  | some n => Char.ofNat n
  | none => c.toLower

/-- A text in small letters; a byte that is no character becomes U+FFFD. -/
def small (x : Bytes) : Bytes := Utf8.ofChars ((Utf8.pieces x).map fun p => smallChar p.shown)

end LetStack.Text
