import LetStack.Text.Bytes

/-!
UTF-8 over byte strings. `decode?` reads the character at the start of a text and refuses overlong
forms, surrogates and values above U+10FFFF; `pieces` cuts any text into characters and the bytes
that belong to none.
-/

namespace LetStack.Utf8

/-- A byte that can only follow another one. -/
def isContinuation (b : UInt8) : Bool := 0x80 ≤ b && b ≤ 0xBF

/-- The character whose encoding starts the text, if there is one. -/
def decode? : Bytes → Option Char
  | [] => none
  | a :: rest =>
    if a < 0x80 then some (Char.ofNat a.toNat)
    else if a < 0xC2 then none
    else if a < 0xE0 then
      match rest with
      | b :: _ =>
        if isContinuation b then some (Char.ofNat (a.toNat % 32 * 64 + b.toNat % 64)) else none
      | [] => none
    else if a < 0xF0 then
      match rest with
      | b :: c :: _ =>
        let v := a.toNat % 16 * 4096 + b.toNat % 64 * 64 + c.toNat % 64
        if isContinuation b ∧ isContinuation c ∧ 0x800 ≤ v ∧ ¬(0xD800 ≤ v ∧ v ≤ 0xDFFF) then
          some (Char.ofNat v)
        else none
      | _ => none
    else if a < 0xF5 then
      match rest with
      | b :: c :: d :: _ =>
        let v := a.toNat % 8 * 262144 + b.toNat % 64 * 4096 + c.toNat % 64 * 64 + d.toNat % 64
        if isContinuation b ∧ isContinuation c ∧ isContinuation d ∧ 0x10000 ≤ v ∧ v ≤ 0x10FFFF then
          some (Char.ofNat v)
        else none
      | _ => none
    else none

def encode (c : Char) : Bytes := String.utf8EncodeChar c

/-- A character of a text, or a byte that is part of none. -/
inductive Piece where
  | char (c : Char)
  | stray (b : UInt8)
  deriving DecidableEq, Repr

namespace Piece

/-- The character a piece shows as: a stray byte shows as U+FFFD. -/
def shown : Piece → Char
  | char c => c
  | stray _ => Char.ofNat 0xFFFD

def bytes : Piece → Bytes
  | char c => encode c
  | stray b => [b]

end Piece

/-- A text as characters and stray bytes, left to right. -/
def pieces : Bytes → List Piece
  | [] => []
  | b :: rest =>
    match decode? (b :: rest) with
    | some c => .char c :: pieces (rest.drop (c.utf8Size - 1))
    | none => .stray b :: pieces rest
termination_by x => x.length
decreasing_by
  · simp only [List.length_drop, List.length_cons]; omega
  · simp

def isValid (x : Bytes) : Bool :=
  (pieces x).all fun
    | .char _ => true
    | .stray _ => false

/-- How many characters a text shows, a stray byte counted as one. -/
def length (x : Bytes) : Nat := (pieces x).length

/-- The number of bytes of the longest run of characters satisfying `p` at the start of a text. -/
def runLength (p : Char → Bool) (x : Bytes) : Nat :=
  match x with
  | [] => 0
  | b :: rest =>
    match decode? (b :: rest) with
    | some c =>
      if p c then c.utf8Size + runLength p (rest.drop (c.utf8Size - 1)) else 0
    | none => 0
termination_by x.length
decreasing_by
  simp only [List.length_drop, List.length_cons]; omega

/-- Blanks behind a text until it shows `width` characters. -/
def padRight (width : Nat) (x : Bytes) : Bytes := x ++ Bytes.spaces (width - length x)

/-- The text of characters. -/
def ofChars (cs : List Char) : Bytes := cs.flatMap encode

/-- The characters that separate words: the Unicode property White_Space. -/
def isWhiteSpace (c : Char) : Bool :=
  (0x09 ≤ c.toNat && c.toNat ≤ 0x0D) || c.toNat == 0x20 || c.toNat == 0x85 || c.toNat == 0xA0 ||
  c.toNat == 0x1680 || (0x2000 ≤ c.toNat && c.toNat ≤ 0x200A) || c.toNat == 0x2028 ||
  c.toNat == 0x2029 || c.toNat == 0x202F || c.toNat == 0x205F || c.toNat == 0x3000

private def isSpacePiece : Piece → Bool
  | .char c => isWhiteSpace c
  | .stray _ => false

/-- A text without the white space at its two ends. -/
def trim (x : Bytes) : Bytes :=
  let inner := ((pieces x).dropWhile isSpacePiece).reverse.dropWhile isSpacePiece
  inner.reverse.flatMap Piece.bytes

end LetStack.Utf8
