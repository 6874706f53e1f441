import LetStack.Diagnostic.Basic

/-!
A bag keeps diagnostics in the order they are found, up to a limit, and counts those it could not
keep. A limit that is not positive is no limit.
-/

namespace LetStack

structure Bag where
  limit : Int
  items : List Diagnostic := []
  /-- A count in 64 bits: past the greatest number it goes on from the least. -/
  dropped : Int64 := 0
  deriving DecidableEq, Repr, Inhabited

namespace Bag

def ofLimit (limit : Int) : Bag := { limit }

def isFull (b : Bag) : Bool := 0 < b.limit && b.limit ≤ b.items.length

/-- Keeps the diagnostic, or counts it as dropped when the bag is full. -/
def add (b : Bag) (d : Diagnostic) : Bag :=
  if b.isFull then { b with dropped := b.dropped + 1 } else { b with items := b.items ++ [d] }

def addAll (b : Bag) (ds : List Diagnostic) : Bag := ds.foldl add b

/-- Counts `n` more diagnostics as dropped; a number that is not positive changes nothing. -/
def addDropped (b : Bag) (n : Int64) : Bag :=
  if 0 < n then { b with dropped := b.dropped + n } else b

def hasErrors (b : Bag) : Bool := b.items.any fun d => 2 ≤ d.severity.level

def hasWarnings (b : Bag) : Bool := b.items.any fun d => 1 ≤ d.severity.level

def count (b : Bag) (code : Code) : Nat := b.items.countP (·.code == code)

/-- Takes over everything of another bag; a limit that is too small for it is raised. -/
def merge (b other : Bag) : Bag where
  limit := if 0 < b.limit then max b.limit (b.items.length + other.items.length) else b.limit
  items := b.items ++ other.items
  dropped := b.dropped + other.dropped

/-- The diagnostics in listing order; those that compare equal keep their order. -/
def sorted (b : Bag) : List Diagnostic := b.items.mergeSort fun x y => !y.listedBefore x

/-- A diagnostic that is reported once, however often it is sent. -/
structure Report where
  diagnostic : Diagnostic
  sent : Bool := false

/-- Sends a report into the bag unless it was sent before. -/
def send (b : Bag) (r : Report) : Bag × Report :=
  if r.sent then (b, r) else (b.add r.diagnostic, { r with sent := true })

end Bag

end LetStack
