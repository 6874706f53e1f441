import LetStack.Text.Utf8

/-!
Values of a TOML document, and its keys. Of a date or time only is kept that it is one.
-/

namespace LetStack.Toml

/-- The names that lead to a value from the top of a document. -/
abbrev Key := List Bytes

inductive Value where
  | text (s : Bytes)
  | integer (n : Int)
  | float
  | bool (b : Bool)
  | moment
  | array
  | table (fields : List (Bytes × Value))
  /-- Tables that follow one another under the same name. -/
  | tables (items : List (List (Bytes × Value)))
  deriving Inhabited

abbrev Table := List (Bytes × Value)

/-- The characters of a key without quotes. -/
def isBareKeyChar (c : Char) : Bool := c.isAlphanum || c == '_' || c == '-'

/-- A control character as it is escaped in a quoted key. -/
def escapeControl (c : Char) : Bytes :=
  if c = '"' then "\\\""
  else if c = '\\' then "\\\\"
  else if c.toNat = 8 then "\\b"
  else if c = '\t' then "\\t"
  else if c = '\n' then "\\n"
  else if c.toNat = 12 then "\\f"
  else if c = '\r' then "\\r"
  else if c.toNat < 0x20 ∨ c.toNat = 0x7F then "\\u" ++ Bytes.hex 4 c.toNat
  else Utf8.encode c

/-- A name of a key, in quotes unless it can do without. -/
def quoteName (name : Bytes) : Bytes :=
  let chars := (Utf8.pieces name).map Utf8.Piece.shown
  if name ≠ [] ∧ chars.all isBareKeyChar then name else "\"" ++ chars.flatMap escapeControl ++ "\""

def keyText (k : Key) : Bytes := Bytes.join "." (k.map quoteName)

end LetStack.Toml
