import LetStack.Text.Bytes

/-!
Spans: byte ranges of a source with the line and column of their first token. Arithmetic on them
wraps at 2^32. A span whose start lies behind its end covers nothing; `Span.empty` is the one that
joins are started from.
-/

namespace LetStack

structure Span where
  start : UInt32 := 0
  /-- The offset behind the last byte. -/
  stop : UInt32 := 0
  line : UInt32 := 0
  column : UInt32 := 0
  length : UInt32 := 0
  deriving DecidableEq, Repr, Inhabited

namespace Span

/-- The span of nothing. -/
def empty : Span := { start := 0xFFFFFFFF }

def isEmpty (s : Span) : Bool := s.stop < s.start

/-- The least span around both; a span that covers nothing adds nothing. -/
def join (s t : Span) : Span :=
  if s.isEmpty then t
  else if t.isEmpty then s
  else
    let start := min s.start t.start
    let stop := max s.stop t.stop
    { start, stop, line := min s.line t.line, column := min s.column t.column, length := stop - start }

def joinAll (spans : List Span) : Span := spans.foldl join empty

/-- Whether `inner` lies inside `s`; false as soon as one of the two covers nothing. -/
def contains (s inner : Span) : Bool :=
  !s.isEmpty && !inner.isEmpty && s.start ≤ inner.start && inner.stop ≤ s.stop

/-- `start-stop@line:column`. -/
def render (s : Span) : Bytes :=
  if s.isEmpty then "<empty>"
  else Bytes.ofWord s.start ++ "-" ++ Bytes.ofWord s.stop ++ "@" ++ Bytes.ofWord s.line ++ ":" ++ Bytes.ofWord s.column

end Span

end LetStack
