import LetStack.Source.Span

/-!
Lines of a file, for people to read: counted from 1, ended by line feeds. A table of the offsets of
all line feeds answers where an offset lies and what a line says.
-/

namespace LetStack

/-- Line and column, both from 1. -/
structure Position where
  line : UInt32 := 0
  column : UInt32 := 0
  deriving DecidableEq, Repr, Inhabited

/-- The offsets of the line feeds of a text, in order; `offset` counts the bytes before it. -/
def lineFeedsFrom (offset : Nat) : Bytes → List Nat
  | [] => []
  | b :: rest => if b = 0x0A then offset :: lineFeedsFrom (offset + 1) rest else lineFeedsFrom (offset + 1) rest

def lineFeeds (x : Bytes) : List Nat := lineFeedsFrom 0 x

/-- How many entries of an ascending table are less than `n`, by halving: those before `lo` are known to be,
those from `hi` on are known not to be. -/
def countBelow (table : Array Nat) (n lo hi : Nat) : Nat :=
  if lo < hi then
    let mid := (lo + hi) / 2
    if table.getD mid 0 < n then countBelow table n (mid + 1) hi else countBelow table n lo mid
  else lo
termination_by hi - lo

/-- Where an offset lies: the line feeds before it are counted, and the column runs from the last of
them. -/
def positionOf (feeds : List Nat) (offset : UInt32) : Position :=
  let table := feeds.toArray
  match countBelow table offset.toNat 0 table.size with
  | 0 => { line := 1, column := offset + 1 }
  | last + 1 => { line := UInt32.ofNat (last + 2), column := offset - UInt32.ofNat (table.getD last 0) }

/-- A text without one carriage return at its end. -/
def dropReturn (x : Bytes) : Bytes := Bytes.dropSuffix x [0x0D]

/-- The text of a line without its end, empty for a line that does not exist. -/
def lineText (content : Bytes) (feeds : List Nat) (line : UInt32) : Bytes :=
  if line = 0 then []
  else
    let start? : Option Nat := if line = 1 then some 0 else (feeds[line.toNat - 2]?).map (· + 1)
    match start? with
    | none => []
    | some start =>
      let stop := (feeds[line.toNat - 1]?).getD content.length
      dropReturn ((content.take stop).drop start)

end LetStack
