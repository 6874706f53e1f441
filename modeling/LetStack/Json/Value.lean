import LetStack.Text.Utf8

/-!
JSON output. Records keep the order of their fields. Characters that mean something inside HTML are
escaped, and a byte that belongs to no character is written as U+FFFD.
-/

namespace LetStack.Json

inductive Value where
  | bool (b : Bool)
  | number (n : Int)
  | text (s : Bytes)
  | list (items : List Value)
  | record (fields : List (Bytes × Value))
  deriving Inhabited

namespace Value

def ofNat (n : Nat) : Value := number n
def ofWord (n : UInt32) : Value := number n.toNat

end Value

def field (name : String) (value : Value) : List (Bytes × Value) := [(Bytes.ofString name, value)]

/-- A field that is left out when a condition holds. -/
def fieldUnless (omitted : Bool) (name : String) (value : Value) : List (Bytes × Value) :=
  if omitted then [] else field name value

/-! ## Writing -/

def escapeCode (n : Nat) : Bytes := "\\u" ++ Bytes.hex 4 n

def escapeChar (c : Char) : Bytes :=
  if c = '"' then "\\\""
  else if c = '\\' then "\\\\"
  else if c.toNat = 8 then "\\b"
  else if c.toNat = 12 then "\\f"
  else if c = '\n' then "\\n"
  else if c = '\r' then "\\r"
  else if c = '\t' then "\\t"
  else if c.toNat < 0x20 ∨ c = '<' ∨ c = '>' ∨ c = '&' ∨ c.toNat = 0x2028 ∨ c.toNat = 0x2029 then
    escapeCode c.toNat
  else Utf8.encode c

def quoted (s : Bytes) : Bytes :=
  "\"" ++ ((Utf8.pieces s).flatMap fun p => escapeChar p.shown) ++ "\""

/-- How the parts of a value are set apart. -/
structure Layout where
  /-- What stands before an item nested a number of levels deep. -/
  lineBreak : Nat → Bytes
  colon : Bytes

/-- Everything on one line. -/
def Layout.compact : Layout := { lineBreak := fun _ => [], colon := ":" }

/-- An item a line, two blanks a level. -/
def Layout.indented : Layout := { lineBreak := fun depth => "\n" ++ Bytes.spaces (2 * depth), colon := ": " }

mutual

/-- A value in a layout, at a depth of nesting. -/
def Value.write (l : Layout) (depth : Nat) : Value → Bytes
  | .bool b => if b then "true" else "false"
  | .number n => Bytes.ofInt n
  | .text s => quoted s
  | .list [] => "[]"
  | .list (v :: vs) =>
    "[" ++ l.lineBreak (depth + 1) ++ v.write l (depth + 1) ++ writeItems l (depth + 1) vs ++
      l.lineBreak depth ++ "]"
  | .record [] => "\x7b\x7d"
  | .record ((k, v) :: fs) =>
    "\x7b" ++ l.lineBreak (depth + 1) ++ quoted k ++ l.colon ++ v.write l (depth + 1) ++
      writeFields l (depth + 1) fs ++ l.lineBreak depth ++ "\x7d"

def writeItems (l : Layout) (depth : Nat) : List Value → Bytes
  | [] => []
  | v :: vs => "," ++ l.lineBreak depth ++ v.write l depth ++ writeItems l depth vs

def writeFields (l : Layout) (depth : Nat) : List (Bytes × Value) → Bytes
  | [] => []
  | (k, v) :: fs =>
    "," ++ l.lineBreak depth ++ quoted k ++ l.colon ++ v.write l depth ++ writeFields l depth fs

end

/-- A value as a document of its own, indented and ended by a line feed. -/
def Value.document (v : Value) : Bytes := v.write .indented 0 ++ "\n"

/-- A value on one line, ended by a line feed. -/
def Value.line (v : Value) : Bytes := v.write .compact 0 ++ "\n"

end LetStack.Json
