import LetStack.Json.Value
import LetStack.Source.FileSet
import LetStack.Text.Quoted

/-!
Listings of tokens: a table for people, and JSON.
-/

namespace LetStack

def Span.toJson (s : Span) : Json.Value :=
  .record (Json.field "start" (.ofWord s.start) ++ Json.field "end" (.ofWord s.stop) ++
    Json.field "line" (.ofWord s.line) ++ Json.field "column" (.ofWord s.column) ++
    Json.field "len" (.ofWord s.length))

/-- `line:column`. -/
def Position.render (p : Position) : Bytes := Bytes.ofWord p.line ++ ":" ++ Bytes.ofWord p.column

def Position.renderRange (a b : Position) : Bytes := a.render ++ "-" ++ b.render

namespace Token

/-- The line of the token with an index, counted from 1. -/
def listed (fs : FileSet) (file : FileId) (index : Nat) (t : Token) : Bytes :=
  let (start, stop) := fs.resolve file t.span
  Bytes.padLeft 3 (Bytes.ofNat (index + 1)) ++ ": " ++ Utf8.padRight 12 t.kind.name ++ " " ++
    Utf8.padRight 16 (Text.quote t.text) ++ " at " ++ start.renderRange stop ++ "\n"

def listing (fs : FileSet) (file : FileId) (toks : List Token) : Bytes :=
  (toks.mapIdx (listed fs file)).flatten

def toJson (t : Token) : Json.Value :=
  .record (Json.field "kind" (.text t.kind.name) ++ Json.field "text" (.text t.text) ++
    Json.field "span" t.span.toJson)

def document (toks : List Token) : Bytes := (Json.Value.list (toks.map toJson)).document

end Token

end LetStack
