import LetStack.Json.Value
import LetStack.Trace.Moment

/-!
Events in writing: a line of text, or a line of JSON.
-/

namespace LetStack.Trace

inductive Format where
  /-- Chosen by the name of the file that is written. -/
  | auto
  | text
  | json
  deriving DecidableEq, Repr, Inhabited

namespace Format

def ofNumber : Nat → Format
  | 0 => auto
  | 2 => json
  | _ => text

def number : Format → Nat
  | auto => 0
  | text => 1
  | json => 2

def ofName (x : Bytes) : Except Bytes Format :=
  let name := Bytes.lower x
  if name = [] ∨ name = "auto" then .ok auto
  else if name = "text" then .ok text
  else if name = "ndjson" ∨ name = "json" then .ok json
  else .error ("invalid trace format: " ++ Text.quote x ++ " (expected: auto|text|ndjson)")

/-- The format of a file with a path. -/
def forPath (f : Format) (path : Bytes) : Format :=
  if f = auto then
    if path.endsWith ".ndjson" ∨ path.endsWith ".jsonl" then json else text
  else f

end Format

def Kind.mark : Kind → Bytes
  | start => "→ "
  | stop => "← "
  | point => "• "
  | unknown _ => []

namespace Event

/-- `#seq scope → name (detail)` and the extras in braces, indented by scope. -/
def textLine (e : Event) : Bytes :=
  let detail : Bytes := if e.detail = [] then [] else " (" ++ e.detail ++ ")"
  let pairs := e.extra.sorted.map fun (k, v) => k ++ "=" ++ v
  let extra : Bytes := if pairs = [] then [] else " \x7b" ++ Bytes.join ", " pairs ++ "\x7d"
  "#" ++ Utf8.padRight 5 (Bytes.ofNat e.seq.toNat) ++ " " ++ Utf8.padRight 6 e.scope.name ++ " " ++
    Bytes.spaces (2 * (e.scope.number - 1)) ++ e.kind.mark ++ e.name ++ detail ++ extra ++ "\n"

def toJson (e : Event) : Json.Value :=
  let id (name : String) (n : Nat) := Json.fieldUnless (n = 0) name (.ofNat n)
  .record (Json.field "time" (.text e.time.render) ++ Json.field "seq" (.ofNat e.seq.toNat) ++
    Json.field "kind" (.text e.kind.name) ++ Json.field "scope" (.text e.scope.name) ++
    id "span_id" e.span.toNat ++ id "parent_id" e.parent.toNat ++ id "gid" e.worker ++
    Json.field "name" (.text e.name) ++ Json.fieldUnless e.detail.isEmpty "detail" (.text e.detail) ++
    Json.fieldUnless e.extra.isEmpty "extra" (.record (e.extra.sorted.map fun (k, v) => (k, .text v))))

def render (e : Event) (f : Format) : Bytes :=
  match f with
  | .json => e.toJson.line
  | .auto | .text => e.textLine

end Event

end LetStack.Trace
