import LetStack.Text.ControlSequence
import LetStack.Text.Width

/-!
How many cells of a terminal a line takes up, where lines are padded to the same width. Control sequences
take up none. ASCII characters take up one each; from any other character on a cluster is measured, with
all its characters.
-/

namespace LetStack.Text
open Utf8 (Piece)

/-- The pictographs that are shown in colour unless a selector says otherwise. -/
def colouredTable : RangeTable :=
  .ofText "231a-231b 23e9-23ec 23f0 23f3 25fd-25fe 2614-2615 2648-2653 267f 2693 26a1 26aa-26ab 26bd-26be 26c4-26c5
    26ce 26d4 26ea 26f2-26f3 26f5 26fa 26fd 2705 270a-270b 2728 274c 274e 2753-2755 2757 2795-2797 27b0 27bf 2b1b-2b1c
    2b50 2b55 1f004 1f0cf 1f18e 1f191-1f19a 1f1e6-1f1ff 1f201 1f21a 1f22f 1f232-1f236 1f238-1f23a 1f250-1f251
    1f300-1f320 1f32d-1f335 1f337-1f37c 1f37e-1f393 1f3a0-1f3ca 1f3cf-1f3d3 1f3e0-1f3f0 1f3f4 1f3f8-1f43e 1f440
    1f442-1f4fc 1f4ff-1f53d 1f54b-1f54e 1f550-1f567 1f57a 1f595-1f596 1f5a4 1f5fb-1f64f 1f680-1f6c5 1f6cc 1f6d0-1f6d2
    1f6d5-1f6d7 1f6dc-1f6df 1f6eb-1f6ec 1f6f4-1f6fc 1f7e0-1f7eb 1f7f0 1f90c-1f93a 1f93c-1f945 1f947-1f9ff 1fa70-1fa7c
    1fa80-1fa88 1fa90-1fabd 1fabf-1fac5 1face-1fadb 1fae0-1fae8 1faf0-1faf8"

def charCells (c : Char) : Nat :=
  match GraphemeClass.ofChar c with
  | .cr | .lf | .control | .extend | .joiner => 0
  | .regional => 2
  | .pictograph => if colouredTable.contains c then 2 else 1
  | _ =>
    if c.toNat = 0x2E3A then 3
    else if c.toNat = 0x2E3B then 4
    else if wideTable.contains c then 2
    else 1

/-- The selectors of the plain and of the coloured form of a pictograph. -/
def plainSelector : Nat := 0xFE0E
def colourSelector : Nat := 0xFE0F

/-- The cells of a cluster. A selector decides about a pictograph, and the width of a flag or a Hangul
syllable is that of its first part; otherwise the characters add up. -/
def clusterCells (first : Char) (more : List Char) : Nat :=
  match GraphemeClass.ofChar first with
  | .pictograph =>
    more.foldl
      (fun n c => if c.toNat = plainSelector then 1 else if c.toNat = colourSelector then 2 else n) (charCells first)
  | .regional | .hangulL => charCells first
  | _ => more.foldl (fun n c => n + charCells c) (charCells first)

/-- The pieces behind the start of a cluster that belong to it. -/
def clusterMore (s : ClusterState) : List Piece → List Piece
  | [] => []
  | p :: rest =>
    let k := GraphemeClass.ofChar p.shown
    if s.continues k then p :: clusterMore (s.push k) rest else []

/-- The cells of the cluster that a text starts with, and the number of its bytes. -/
def firstCluster (x : Bytes) : Nat × Nat :=
  match Utf8.pieces x with
  | [] => (0, 0)
  | p :: rest =>
    let more := clusterMore (.ofFirst (.ofChar p.shown)) rest
    (clusterCells p.shown (more.map Piece.shown), ((p :: more).flatMap Piece.bytes).length)

/-- The cells of a line that goes on in a given state. -/
def cellsFrom (s : ControlState) (x : Bytes) : Nat :=
  match x with
  | [] => 0
  | b :: rest =>
    match s.step b with
    | some next => (if s.shows b then 1 else 0) + cellsFrom next rest
    | none =>
      let (cells, length) := firstCluster (b :: rest)
      cells + cellsFrom .text (rest.drop (length - 1))
termination_by x.length
decreasing_by
  · simp
  · simp only [List.length_drop, List.length_cons]; omega

def cells (x : Bytes) : Nat := cellsFrom .text x

/-- Text as a block: tabs are four blanks, and the lines are all as wide as the widest. -/
def block (x : Bytes) : Bytes :=
  let lines := Bytes.splitOn 0x0A (Bytes.replace "\t" "    " x)
  let widest := (lines.map cells).foldl max 0
  Bytes.join "\n" (lines.map fun l => l ++ Bytes.spaces (widest - cells l))

end LetStack.Text
