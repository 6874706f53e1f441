import LetStack.Text.Quoted
import LetStack.Toml.Value

/-!
The place up to which a TOML text has been read. A character is checked as soon as it is looked at: the
text has no stray bytes, no control characters but tabs and line ends, and a carriage return only in
front of a line feed.
-/

namespace LetStack.Toml
open Utf8 (Piece)

structure Fault where
  line : Nat
  message : Bytes
  deriving Repr, Inhabited

def isBlank (c : Char) : Bool := c == ' ' || c == '\t'
def isLineEnd (c : Char) : Bool := c == '\n' || c == '\r'

/-- The control characters that a text cannot hold anywhere. -/
def isControl (c : Char) : Bool := (c.toNat < 0x20 && !isBlank c && !isLineEnd c) || c.toNat == 0x7F

/-- What is left of a text, and the line where that starts. -/
structure Cursor where
  rest : List Piece
  line : Nat := 1
  deriving Inhabited

/-- The character of a piece, if it can stand in a text in front of `after`. -/
def checked (line : Nat) (p : Piece) (after : List Piece) : Except Fault Char :=
  match p with
  | .stray b => .error ⟨line, "invalid UTF-8 byte: 0x" ++ Bytes.hex 2 b.toNat⟩
  | .char c =>
    if c.toNat = 0xFFFD then .error ⟨line, "invalid UTF-8 byte: 0xef"⟩
    else if isControl c || (c == '\r' && after.head? != some (.char '\n')) then
      .error ⟨line, "TOML files cannot contain control characters: '0x" ++ Bytes.hex 2 c.toNat ++ "'"⟩
    else .ok c

/-- The line behind a character of the given line. -/
def lineBehind (line : Nat) (c : Char) : Nat := if c = '\n' then line + 1 else line

namespace Cursor

def fail {α : Type} (c : Cursor) (message : Bytes) : Except Fault α := .error ⟨c.line, message⟩

/-- A fault that is put down to the line in front. -/
def failBefore {α : Type} (c : Cursor) (message : Bytes) : Except Fault α := .error ⟨c.line - 1, message⟩

/-- A fault behind the given character; one at the end of the text is put down to the line in front. -/
def failBehind {α : Type} (c : Cursor) (read : Option Char) (message : Bytes) : Except Fault α :=
  if read.isNone then c.failBefore message else c.fail message

/-- The next character, or none at the end of the text. -/
def peek (c : Cursor) : Except Fault (Option Char) :=
  match c.rest with
  | [] => .ok none
  | p :: after => some <$> checked c.line p after

/-- The next character and the place behind it. -/
def next (c : Cursor) : Except Fault (Option Char × Cursor) :=
  match c.rest with
  | [] => .ok (none, c)
  | p :: after => do
    let read ← checked c.line p after
    return (some read, ⟨after, lineBehind c.line read⟩)

/-- Whether the next character is the given one, and the place behind it if it is. -/
def accept (c : Cursor) (wanted : Char) : Except Fault (Bool × Cursor) := do
  let (read, behind) ← c.next
  return if read = some wanted then (true, behind) else (false, c)

/-- The longest run of characters that satisfy `p`. The character behind it is looked at as well. -/
def spanFrom (p : Char → Bool) (line : Nat) : List Piece → Except Fault (List Char × Cursor)
  | [] => .ok ([], ⟨[], line⟩)
  | q :: after => do
    let read ← checked line q after
    if p read then
      let (more, behind) ← spanFrom p (lineBehind line read) after
      return (read :: more, behind)
    else return ([], ⟨q :: after, line⟩)

@[inherit_doc spanFrom]
def span (c : Cursor) (p : Char → Bool) : Except Fault (List Char × Cursor) := spanFrom p c.line c.rest

/-- Behind what satisfies `p`. -/
def skip (c : Cursor) (p : Char → Bool) : Except Fault Cursor := return (← c.span p).2

end Cursor

/-- A character in a message; the end of the text is written as the character zero. -/
def shownChar (read : Option Char) : Bytes := Text.quoteChar (read.getD (Char.ofNat 0))

/-- The same without quotes. -/
def plainChar (read : Option Char) : Bytes := Utf8.encode (read.getD (Char.ofNat 0))

/-- A character in a message, or the words for the end of the text. -/
def charOrEnd : Option Char → Bytes
  | some c => "'" ++ Utf8.encode c ++ "'"
  | none => "end of file"

def shownText (cs : List Char) : Bytes := Text.quote (Utf8.ofChars cs)

end LetStack.Toml
