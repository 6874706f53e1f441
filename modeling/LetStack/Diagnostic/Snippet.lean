import LetStack.Source.FileSet
import LetStack.Text.Colour

/-!
The lines of source under a diagnostic: some lines above, the line it starts on, and a line of marks
under the part of that line that it covers. How many columns a text takes up is measured by the caller.
-/

namespace LetStack.Snippet
open Text

def gutterStyle : Style := { colour := some .blue }
def markStyle : Style := { colour := some .red, bold := true }

/-- Four blanks for a tab. -/
def expandTabs (x : Bytes) : Bytes := Bytes.replace [0x09] (Bytes.spaces 4) x

/-- The number of the first line shown for a line with so many lines of context. -/
def firstLine (line : Nat) (context : Int) : Nat := max 1 (line - context.toNat)

/-- The part of a line between two offsets; none if they are not in order or not in the line. -/
def slice? (line : Bytes) (first last : Int) : Option Bytes :=
  if 0 ≤ first ∧ first ≤ last ∧ last ≤ line.length then some ((line.take last.toNat).drop first.toNat) else none

/-- Offsets in a line, between which marks are drawn. -/
structure Extent where
  first : Int
  last : Int
  deriving DecidableEq, Repr

/-- From the column that a span starts at, up to the one it ends at if this is on the same line. A column behind the
text of the line is the end of the text. -/
def extentOf (line : Bytes) (start stop : Position) : Extent where
  first := min ((start.column.toNat : Int) - 1) line.length
  last := if stop.line = start.line then min ((stop.column.toNat : Int) - 1) line.length else line.length

/-- The first line of a span: what stands in front of the span, and what the span covers. -/
structure Marked where
  before : Bytes
  covered : Bytes
  deriving DecidableEq, Repr

/-- The part of a line within an extent, nothing if it ends where it starts or before. -/
def Extent.covered? (x : Extent) (line : Bytes) : Option Bytes :=
  if x.first < x.last then slice? line x.first x.last else some []

/-- The split of the first line of a span; none if the span starts at no column. -/
def marked? (line : Bytes) (start stop : Position) : Option Marked := do
  let x := extentOf line start stop
  let before ← slice? line 0 x.first
  let covered ← x.covered? line
  return { before, covered }

/-- A mark and a tail of the given width in all. -/
def marks (n : Nat) : Bytes := "^" ++ Bytes.repeated (n - 1) "~"

def sourceLine (coloured : Bool) (gutter n : Nat) (text : Bytes) : Bytes :=
  " " ++ gutterStyle.paint coloured (Bytes.padLeft gutter (Bytes.ofNat n) ++ " |") ++ " " ++ expandTabs text ++ "\n"

/-- The lines from the one with number `n` to the last. Lines are counted in 32 bits, so behind the greatest number comes
0: if that is the last there is no end to them, and none are drawn. -/
def linesTo? (coloured : Bool) (gutter : Nat) (f : SourceFile) (last n : UInt32) : Option Bytes :=
  if n ≤ last then
    if n < n + 1 then do
      let rest ← linesTo? coloured gutter f last (n + 1)
      return sourceLine coloured gutter n.toNat (f.line n) ++ rest
    else none
  else some []
termination_by 0x100000000 - n.toNat
decreasing_by
  next up =>
    have more : n.toNat < (n + 1).toNat := UInt32.lt_iff_toNat_lt.1 up
    have within := (n + 1).toNat_lt
    omega

section
variable (measure : Bytes → Nat)

/-- How many columns the marks take up: at least one. -/
def markWidth (m : Marked) : Nat := if m.covered = [] then 1 else max 1 (measure (expandTabs m.covered))

def markLine (coloured : Bool) (gutter : Nat) (m : Marked) : Bytes :=
  " " ++ gutterStyle.paint coloured (Bytes.spaces gutter ++ " |") ++ " " ++
    Bytes.spaces (measure (expandTabs m.before)) ++ markStyle.paint coloured (marks (markWidth measure m)) ++ "\n"

def drawn? (coloured : Bool) (context : Int) (f : SourceFile) (start stop : Position) : Option Bytes := do
  let gutter := (Bytes.ofNat start.line.toNat).length
  let shown ← linesTo? coloured gutter f start.line (.ofNat (firstLine start.line.toNat context))
  let m ← marked? (f.line start.line) start stop
  return shown ++ markLine measure coloured gutter m

/-- The snippet of a span: nothing for a span of nothing, in an unknown file or on no line, and none if the span
starts behind every column there can be or on the greatest line. -/
def ofSpan? (coloured : Bool) (context : Int) (fs? : Option FileSet) (file : FileId) (span : Span) :
    Option Bytes :=
  match fs?.bind (·.get? file) with
  | none => some []
  | some f =>
    if span.isEmpty then some []
    else
      let start := positionOf f.lineFeeds span.start
      let stop := positionOf f.lineFeeds span.stop
      if start.line = 0 then some [] else drawn? measure coloured context f start stop

end

end LetStack.Snippet
