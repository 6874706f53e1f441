import LetStack.Text.Utf8
import LetStack.Text.Printable

/-!
Quoted text for listings. Printable characters stand for themselves; the quote and the backslash are
escaped, control characters have short forms, and everything else is written by its number: stray
bytes and ASCII controls with two hexadecimal digits, other characters with four or eight.
-/

namespace LetStack.Text
open Utf8 (Piece)

/-- The escape of a control character that has a short one. -/
def shortEscape? (n : Nat) : Option String :=
  match n with
  | 0x07 => some "\\a"
  | 0x08 => some "\\b"
  | 0x09 => some "\\t"
  | 0x0A => some "\\n"
  | 0x0B => some "\\v"
  | 0x0C => some "\\f"
  | 0x0D => some "\\r"
  | _ => none

/-- A character inside quotes of the kind `quote`. -/
def quotedChar (quote c : Char) : Bytes :=
  if c = quote ∨ c = '\\' then "\\" ++ Utf8.encode c
  else if isPrintable c then Utf8.encode c
  else
    match shortEscape? c.toNat with
    | some s => s
    | none =>
      if c.toNat < 0x80 then "\\x" ++ Bytes.hex 2 c.toNat
      else if c.toNat < 0x10000 then "\\u" ++ Bytes.hex 4 c.toNat
      else "\\U" ++ Bytes.hex 8 c.toNat

def quotedPiece : Piece → Bytes
  | .char c => quotedChar '"' c
  | .stray b => "\\x" ++ Bytes.hex 2 b.toNat

def quote (x : Bytes) : Bytes := "\"" ++ (Utf8.pieces x).flatMap quotedPiece ++ "\""

def quoteChar (c : Char) : Bytes := "'" ++ quotedChar '\'' c ++ "'"

end LetStack.Text
