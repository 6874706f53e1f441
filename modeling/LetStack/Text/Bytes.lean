/-!
Text as bytes. Source files, names, messages and rendered output are byte strings that need not be
valid UTF-8, so every text of the compiler has this type; a `String` literal stands for its UTF-8
bytes.
-/

namespace LetStack

abbrev Bytes := List UInt8

namespace Bytes

def ofString (s : String) : Bytes := s.toUTF8.data.toList

instance : Coe String Bytes := ⟨ofString⟩

/-- The byte of an ASCII character. -/
def ofChar (c : Char) : UInt8 := UInt8.ofNat c.toNat

def ofNat (n : Nat) : Bytes := ofString (toString n)

def ofWord (n : UInt32) : Bytes := ofNat n.toNat

/-- An integer in decimal, a minus sign before a negative one. -/
def ofInt : Int → Bytes
  | .ofNat n => ofNat n
  | .negSucc n => "-" ++ ofNat (n + 1)

/-- The texts one after another with `sep` between them. -/
def join (sep : Bytes) : List Bytes → Bytes
  | [] => []
  | [x] => x
  | x :: y :: rest => x ++ sep ++ join sep (y :: rest)

def repeated (n : Nat) (x : Bytes) : Bytes := (List.replicate n x).flatten

def spaces (n : Nat) : Bytes := List.replicate n 0x20

/-- Blanks in front until the text has `width` bytes. -/
def padLeft (width : Nat) (x : Bytes) : Bytes := spaces (width - x.length) ++ x

/-- Zeros in front until the text has `width` bytes. -/
def padZeros (width : Nat) (x : Bytes) : Bytes := List.replicate (width - x.length) 0x30 ++ x

def endsWith (x tail : Bytes) : Bool := tail.length ≤ x.length && x.drop (x.length - tail.length) == tail

def startsWith (x head : Bytes) : Bool := head.isPrefixOf x

/-- `x` without `tail` at its end, or `x` itself when it does not end so. -/
def dropSuffix (x tail : Bytes) : Bytes := if x.endsWith tail then x.take (x.length - tail.length) else x

/-- The pieces of `x` between the bytes equal to `sep`; one piece more than there are separators. -/
def splitOn (sep : UInt8) : Bytes → List Bytes
  | [] => [[]]
  | b :: rest =>
    match splitOn sep rest with
    | [] => [[b]]
    | piece :: pieces => if b = sep then [] :: piece :: pieces else (b :: piece) :: pieces

/-- Every occurrence of the non-empty text `old` replaced by `new`, left to right. -/
def replace (old new : Bytes) : Bytes → Bytes
  | [] => []
  | b :: rest =>
    if _ : 0 < old.length ∧ old.isPrefixOf (b :: rest) then
      new ++ replace old new ((b :: rest).drop old.length)
    else b :: replace old new rest
termination_by x => x.length
decreasing_by
  · rename_i hit
    have := hit.1
    simp only [List.length_drop, List.length_cons]; omega
  · simp

/-- An ASCII capital letter made small; every other byte as it is. -/
def lowerByte (b : UInt8) : UInt8 := if 0x41 ≤ b ∧ b ≤ 0x5A then b + 0x20 else b

def lower (x : Bytes) : Bytes := x.map lowerByte

/-- The bytes from the offset `first` up to `last`; none if these do not lie in order inside the text. -/
def slice? (x : Bytes) (first last : Nat) : Option Bytes :=
  if first ≤ last ∧ last ≤ x.length then some ((x.take last).drop first) else none

/-- Lexicographic order of bytes: whether `x` comes before `y`. -/
def before : Bytes → Bytes → Bool
  | _, [] => false
  | [], _ :: _ => true
  | a :: x, b :: y => a < b || (a == b && before x y)

def sort (xs : List Bytes) : List Bytes := xs.mergeSort fun x y => !before y x

/-- The digit of a value below 16, in small letters. -/
def hexDigit (n : Nat) : UInt8 := UInt8.ofNat (if n < 10 then 0x30 + n else 0x57 + n)

/-- A number in at least `width` hexadecimal digits. -/
def hex (width n : Nat) : Bytes := padZeros width (ofString (String.ofList (Nat.toDigits 16 n)))

/-- Two hexadecimal digits a byte. -/
def toHex (x : Bytes) : Bytes := x.flatMap fun b => [hexDigit (b.toNat / 16), hexDigit (b.toNat % 16)]

end Bytes

def isDecimalDigit (b : UInt8) : Bool := 0x30 ≤ b && b ≤ 0x39
def isBinaryDigit (b : UInt8) : Bool := b == 0x30 || b == 0x31
def isOctalDigit (b : UInt8) : Bool := 0x30 ≤ b && b ≤ 0x37
def isHexDigit (b : UInt8) : Bool :=
  isDecimalDigit b || (0x61 ≤ b && b ≤ 0x66) || (0x41 ≤ b && b ≤ 0x46)

/-- The value of a letter or digit as a digit: `0`–`9`, then `a`–`z` in either case. -/
def digitValue? (b : UInt8) : Option Nat :=
  if isDecimalDigit b then some (b.toNat - 0x30)
  else if 0x61 ≤ b ∧ b ≤ 0x7A then some (b.toNat - 0x57)
  else if 0x41 ≤ b ∧ b ≤ 0x5A then some (b.toNat - 0x37)
  else none

end LetStack
