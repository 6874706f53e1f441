import LetStack.Source.Span

/-!
A cursor is an offset into bytes with an upper bound. Offsets are 32-bit words and their sums wrap.
-/

namespace LetStack

structure Cursor where
  src : Array UInt8
  offset : UInt32 := 0
  /-- The offset that the cursor may not pass. -/
  limit : UInt32
  deriving DecidableEq, Repr, Inhabited

namespace Cursor

def ofSource (src : Bytes) : Cursor := { src := src.toArray, limit := UInt32.ofNat src.length }

def atEnd (c : Cursor) : Bool := c.limit ≤ c.offset

/-- The byte at an offset; none when the bytes end before it. -/
def byteAt? (c : Cursor) (off : UInt32) : Option UInt8 := c.src[off.toNat]?

/-- The byte under the cursor, 0 at the end. None when the limit lies behind the bytes and the
cursor too. -/
def peek? (c : Cursor) : Option UInt8 := if c.atEnd then some 0 else c.byteAt? c.offset

/-- The byte `n` positions ahead and whether there is one before the limit. -/
def peekAt? (c : Cursor) (n : UInt32) : Option (UInt8 × Bool) :=
  if c.limit ≤ c.offset + n then some (0, false) else (c.byteAt? (c.offset + n)).map (·, true)

/-- The byte under the cursor, with the cursor behind it. -/
def bump? (c : Cursor) : Option (UInt8 × Cursor) :=
  if c.atEnd then some (0, c)
  else (c.byteAt? c.offset).map fun b => (b, { c with offset := c.offset + 1 })

/-- `n` bytes further, but not past the limit. -/
def advance (c : Cursor) (n : UInt32) : Cursor := { c with offset := min (c.offset + n) c.limit }

/-- The bytes between two offsets; none when these do not lie in order inside the bytes. -/
def slice? (c : Cursor) (first last : UInt32) : Option Bytes :=
  if first ≤ last ∧ last.toNat ≤ c.src.size then some (c.src.extract first.toNat last.toNat).toList else none

/-- The bytes between the cursor and the limit. -/
def rest? (c : Cursor) : Option Bytes := c.slice? c.offset c.limit

def moveTo (c : Cursor) (off : UInt32) : Cursor := { c with offset := off }

/-- The range from a marked offset to the cursor, without a line. -/
def spanFrom (c : Cursor) (mark : UInt32) : Span :=
  { start := mark, stop := c.offset, length := c.offset - mark }

end Cursor

end LetStack
