import LetStack.Text.Bytes

/-!
Sets of characters as sorted ranges of code points, written in hexadecimal: `41-5a 61-7a aa`.
-/

namespace LetStack

structure RangeTable where
  ranges : Array (Nat × Nat)

namespace RangeTable

def hexValue (s : String) : Nat :=
  s.foldl (fun n c => n * 16 + (digitValue? (Bytes.ofChar c)).getD 0) 0

/-- The words of a text, separated by blanks and line ends. -/
def words (s : String) : List String := ((s.splitOn "\n").flatMap (·.splitOn " ")).filter (· ≠ "")

/-- The ranges of a text; a single code point is a range of its own. -/
def ofText (s : String) : RangeTable where
  ranges := ((words s).filterMap fun item =>
    match item.splitOn "-" with
    | [one] => some (hexValue one, hexValue one)
    | [first, last] => some (hexValue first, hexValue last)
    | _ => none).toArray

/-- Whether one of the ranges with index from `lo` up to `hi` holds `n`, by bisection. -/
def search (ranges : Array (Nat × Nat)) (n lo hi : Nat) : Bool :=
  if _ : lo < hi then
    let mid := (lo + hi) / 2
    match ranges[mid]? with
    | none => false
    | some (first, last) =>
      if n < first then search ranges n lo mid
      else if last < n then search ranges n (mid + 1) hi
      else true
  else false
termination_by hi - lo

def contains (t : RangeTable) (c : Char) : Bool := search t.ranges c.toNat 0 t.ranges.size

end RangeTable

end LetStack
