import LetStack.Toml.Cursor

/-!
Strings in a TOML text, from behind their opening quotes up to and including the closing ones. A reader
gives the characters as they are written; escape sequences are only checked for their form.
-/

namespace LetStack.Toml
open Utf8 (Piece)

def isHexadecimal (c : Char) : Bool := c.toNat < 0x80 && isHexDigit (Bytes.ofChar c)

/-- How far an escape sequence has been read. -/
inductive Escape where
  | outside
  /-- Behind the backslash. -/
  | opened
  /-- `left` more hexadecimal digits are to follow the letter `mark`. -/
  | digits (mark : Char) (left : Nat)
  deriving DecidableEq, Repr

namespace Escape

/-- What is wrong if something else follows where digits should be; `written` is the string up to there. -/
def missingDigits (mark : Char) (written : List Char) : Bytes :=
  "expected " ++ Bytes.ofString (if mark = 'u' then "four" else "eight") ++ Bytes.ofString " hexadecimal digits after '\\" ++
    Utf8.encode mark ++ "', but got " ++ shownText written ++ " instead"

def invalid (read : Option Char) : Bytes := "invalid escape in string '\\" ++ plainChar read ++ "'"

/-- Takes one more character, the end of the text included; `written` is the string with that character.
In a string of several lines a line end can be escaped. -/
def step (long : Bool) (written : List Char) (read : Option Char) : Escape → Except Bytes Escape
  | outside => .ok (if read = some '\\' then opened else outside)
  | opened =>
    match read with
    | none => .error (invalid none)
    | some c =>
      if c = 'u' then .ok (digits 'u' 4)
      else if c = 'U' then .ok (digits 'U' 8)
      else if ['b', 't', 'n', 'f', 'r', '"', ' ', '\t', '\\'].contains c || (long && isLineEnd c) then .ok outside
      else .error (invalid (some c))
  | digits mark left =>
    if (read.map isHexadecimal).getD false then .ok (if left ≤ 1 then outside else digits mark (left - 1))
    else .error (missingDigits mark written)

end Escape

/-- A string on one line. `text` holds what has been read of it, backwards. -/
def readString (text : List Char) (e : Escape) (line : Nat) : List Piece → Except Fault (List Char × Cursor)
  | [] =>
    let message : Bytes := match e.step false text.reverse none with
      | .error message => message
      | .ok _ => "unexpected EOF; expected '\"'"
    Cursor.failBefore ⟨[], line⟩ message
  | p :: after => do
    let c ← checked line p after
    let behind : Cursor := ⟨after, lineBehind line c⟩
    if e = .outside ∧ c = '"' then return (text.reverse, behind)
    else if e = .outside ∧ isLineEnd c then behind.failBefore "strings cannot contain newlines"
    else
      match e.step false (c :: text).reverse (some c) with
      | .error message => behind.fail message
      | .ok e => readString (c :: text) e behind.line after

/-- A literal string on one line. -/
def readLiteral (line : Nat) : List Piece → Except Fault (List Char × Cursor)
  | [] => Cursor.failBefore ⟨[], line⟩ "unexpected EOF; expected \"'\""
  | p :: after => do
    let c ← checked line p after
    let behind : Cursor := ⟨after, lineBehind line c⟩
    if c = '\'' then return ([], behind)
    else if isLineEnd c then behind.failBefore "strings cannot contain newlines"
    else
      let (more, behind) ← readLiteral behind.line after
      return (c :: more, behind)

/-- How many quotes, up to three more, follow the cursor, and the place behind the first two of them. -/
def quotesAhead (q : Char) (c : Cursor) : Except Fault (Nat × Cursor) := do
  let (second, c) ← c.accept q
  if !second then return (0, c)
  let (third, c) ← c.accept q
  if !third then return (1, c)
  return (if (← c.peek) = some q then 3 else 2, c)

/-- A string over several lines. Up to two quotes in front of the closing three belong to it; a backslash
in front of those is taken for one that escapes the first of them. -/
def readLongString (text : List Char) (e : Escape) (line : Nat) : List Piece → Except Fault (List Char × Cursor)
  | [] =>
    let message : Bytes := match e.step true text.reverse none with
      | .error message => message
      | .ok _ => "unexpected EOF; expected '\"\"\"'"
    Cursor.failBefore ⟨[], line⟩ message
  | p :: after => do
    let c ← checked line p after
    let behind : Cursor := ⟨after, lineBehind line c⟩
    if e = .outside ∧ c = '"' then
      let (ahead, closed) ← quotesAhead '"' behind
      if ahead = 2 then return (text.reverse, closed)
      else if ahead = 3 ∧ text.take 2 = ['"', '"'] ∧ text.take 3 ≠ ['"', '"', '\\'] then
        behind.fail "unexpected '\"\"\"\"\"\"'"
      else readLongString (c :: text) e behind.line after
    else
      match e.step true (c :: text).reverse (some c) with
      | .error message => behind.fail message
      | .ok e => readLongString (c :: text) e behind.line after

/-- A literal string over several lines. -/
def readLongLiteral (text : List Char) (line : Nat) : List Piece → Except Fault (List Char × Cursor)
  | [] => Cursor.failBefore ⟨[], line⟩ "unexpected EOF; expected \"'''\""
  | p :: after => do
    let c ← checked line p after
    let behind : Cursor := ⟨after, lineBehind line c⟩
    if c = '\'' then
      let (ahead, closed) ← quotesAhead '\'' behind
      if ahead = 2 then return (text.reverse, closed)
      else if ahead = 3 ∧ text.take 2 = ['\'', '\''] then behind.fail "unexpected \"''''''\""
      else readLongLiteral (c :: text) behind.line after
    else readLongLiteral (c :: text) behind.line after

end LetStack.Toml
