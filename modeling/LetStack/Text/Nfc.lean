import LetStack.Text.Nfc.Data
import LetStack.Text.RangeTable
import LetStack.Text.Utf8

/-!
Normalization form C: canonically equivalent texts get one spelling, with letters and marks composed
where a composed character exists. Long runs of marks are kept in bounds as the stream-safe format
prescribes: after thirty characters that attach to a base, a grapheme joiner is put in and a new
segment starts. Stray bytes pass through.
-/

namespace LetStack.Text.Nfc
open Utf8 (Piece)

/-! ## Data -/

/-- A character, whether its parts compose to it, and its parts. -/
structure Decomposition where
  char : Nat
  composes : Bool
  parts : List Nat

/-- The decompositions of items; `next` is the character behind the last one read. -/
def readDecompositions (next : Nat) : List String → List Decomposition
  | [] => []
  | item :: rest =>
    let composes := item.contains '='
    match item.splitOn (if composes then "=" else "!") with
    | [c, parts] =>
      let char := if c.isEmpty then next else RangeTable.hexValue c
      ⟨char, composes, (parts.splitOn "+").map RangeTable.hexValue⟩ :: readDecompositions (char + 1) rest
    | _ => readDecompositions next rest

def decompositions : Array Decomposition :=
  (readDecompositions 0 (RangeTable.words decompositionText)).toArray

/-- Ranges with a decimal value each, from items `first-last:value`; `value` is the last one read. -/
def readValues (value : Nat) : List String → List (Nat × Nat × Nat)
  | [] => []
  | item :: rest =>
    let (range, value) :=
      match item.splitOn ":" with
      | [range, v] => (range, v.toNat?.getD 0)
      | _ => (item, value)
    match (range.splitOn "-").map RangeTable.hexValue with
    | [one] => (one, one, value) :: readValues value rest
    | [first, last] => (first, last, value) :: readValues value rest
    | _ => readValues value rest

/-- The value of the range around `n`, 0 outside all ranges. -/
def valueOf (values : Array (Nat × Nat × Nat)) (n : Nat) : Nat :=
  match values.find? fun (first, last, _) => first ≤ n && n ≤ last with
  | some (_, _, v) => v
  | none => 0

def combiningClasses : Array (Nat × Nat × Nat) := (readValues 0 (RangeTable.words combiningClassText)).toArray
def attachments : Array (Nat × Nat × Nat) := (readValues 0 (RangeTable.words attachmentText)).toArray

def combiningClass (n : Nat) : Nat := if n < 0x300 then 0 else valueOf combiningClasses n

/-! ## Hangul -/

def isSyllable (n : Nat) : Bool := 0xAC00 ≤ n && n ≤ 0xD7A3

/-- The jamo of a syllable: leading consonant, vowel and, if there is one, trailing consonant. -/
def jamo (n : Nat) : List Nat :=
  let s := n - 0xAC00
  let lv := [0x1100 + s / 588, 0x1161 + s % 588 / 28]
  if s % 28 = 0 then lv else lv ++ [0x11A7 + s % 28]

/-- The syllable of two jamo, or of a syllable without trailing consonant and one. -/
def composeHangul? (a b : Nat) : Option Nat :=
  if 0x1100 ≤ a ∧ a ≤ 0x1112 ∧ 0x1161 ≤ b ∧ b ≤ 0x1175 then
    some (0xAC00 + (a - 0x1100) * 588 + (b - 0x1161) * 28)
  else if isSyllable a ∧ (a - 0xAC00) % 28 = 0 ∧ 0x11A8 ≤ b ∧ b ≤ 0x11C2 then
    some (a + (b - 0x11A7))
  else none

/-! ## Decomposing and composing -/

/-- The full canonical decomposition; no character takes more than `fuel` steps. -/
def decomposeWithin : Nat → Nat → List Nat
  | 0, n => [n]
  | fuel + 1, n =>
    if n < 0xC0 then [n]
    else if isSyllable n then jamo n
    else
      match decompositions.find? (·.char == n) with
      | some d => d.parts.flatMap (decomposeWithin fuel)
      | none => [n]

def decompose (n : Nat) : List Nat := decomposeWithin 8 n

/-- The pairs of parts that compose, and what they compose to. -/
def compositions : Array (Nat × Nat × Nat) :=
  decompositions.filterMap fun d =>
    match d.composes, d.parts with
    | true, [a, b] => some (a, b, d.char)
    | _, _ => none

/-- Whether a character composes with some other in front of it. -/
def composesBackward (n : Nat) : Bool := 0x300 ≤ n && compositions.any (·.2.1 == n)

/-- The character that two compose to. Pairs are told apart by the lower sixteen bits of their two code
points, which are different for all of them. -/
def compose? (a b : Nat) : Option Nat :=
  (compositions.find? fun (x, y, _) => x % 0x10000 == a % 0x10000 && y % 0x10000 == b % 0x10000).map (·.2.2)

/-- How many characters at the start of a character's decomposition attach to the one before. -/
def leading (n : Nat) : Nat :=
  if n < 0x300 ∨ isSyllable n then 0 else valueOf attachments n / 10

/-- How many characters at the end of a character's decomposition attach to the one before. -/
def trailing (n : Nat) : Nat :=
  if n < 0xA0 then 0
  else if isSyllable n then (if (n - 0xAC00) % 28 = 0 then 1 else 2)
  else valueOf attachments n % 10

/-- A character of a segment with its combining class, or a stray byte, which has class 0. A composed
character keeps the class of its base. -/
structure Member where
  piece : Piece
  ccc : Nat

namespace Member

def ofCode (n : Nat) : Member := ⟨.char (Char.ofNat n), combiningClass n⟩

/-- The code point; that of U+FFFD for a stray byte. -/
def code (m : Member) : Nat := m.piece.shown.toNat

/-- A piece of a text as the members that it decomposes into. -/
def ofPiece : Piece → List Member
  | .char c => (decompose c.toNat).map ofCode
  | .stray b => [⟨.stray b, 0⟩]

end Member

/-- Inserts a mark behind those of its class or a lower one; `seen` holds the members so far, the last
first. -/
def insertMark (m : Member) : List Member → List Member
  | [] => [m]
  | last :: seen => if m.ccc < last.ccc then last :: insertMark m seen else m :: last :: seen

/-- The canonical order: marks behind a base sorted by class. -/
def reorder (ms : List Member) : List Member :=
  (ms.foldl (fun seen m => if m.ccc = 0 then m :: seen else insertMark m seen) []).reverse

/-- A segment while it is composed: what is done with, the character that others may compose with, and
those kept behind it, in both lists the last first. -/
structure Composition where
  before : List Member := []
  base : Member
  kept : List Member := []

namespace Composition

def last (c : Composition) : Member := c.kept.headD c.base

def keep (c : Composition) (m : Member) : Composition := { c with kept := m :: c.kept }

/-- Makes the last character the base if it has class 0. -/
def advance (c : Composition) : Composition :=
  match c.kept with
  | m :: kept => if m.ccc = 0 then { before := kept ++ c.base :: c.before, base := m } else c
  | [] => c

/-- Composes one more member with the base, or keeps it. One of the class of the last kept one, or of a
lower class, is blocked. -/
def addBy (compose : Nat → Nat → Option Nat) (c : Composition) (m : Member) : Composition :=
  let c := c.advance
  if !c.kept.isEmpty && m.ccc ≤ c.last.ccc then c.keep m
  else
    match compose c.base.code m.code with
    | some n => { c with base := { c.base with piece := .char (Char.ofNat n) } }
    | none => c.keep m

/-- Only members that compose with something are looked at as such. -/
def add (c : Composition) (m : Member) : Composition :=
  if composesBackward m.code then c.addBy compose? m else c.keep m

/-- Adds the members of a segment. From the first jamo on only syllables are composed. -/
def addAll (c : Composition) : List Member → Composition
  | [] => c
  | m :: rest =>
    if 0x1100 ≤ m.code ∧ m.code ≤ 0x11FF then (m :: rest).foldl (addBy composeHangul?) c
    else addAll (c.add m) rest

def members (c : Composition) : List Member := (c.kept ++ c.base :: c.before).reverse

end Composition

def normalizeSegment (segment : List Piece) : List Piece :=
  match reorder (segment.flatMap Member.ofPiece) with
  | [] => []
  | base :: rest => ((Composition.addAll { base } rest).members).map (·.piece)

/-! ## Segments -/

/-- The greatest number of attaching characters in a row. -/
def maxAttached : Nat := 30

def graphemeJoiner : Piece := .char (Char.ofNat 0x34F)

def render (ps : List Piece) : Bytes := ps.flatMap Piece.bytes

/-- How many bytes the encoding of a character takes that starts with the given one. -/
def encodedSize (b : UInt8) : Nat :=
  if b < 0xC2 then 1 else if b < 0xE0 then 2 else if b < 0xF0 then 3 else if b < 0xF8 then 4 else 1

/-- The normal form of a text whose current segment, the last piece first, is `segment` and holds
`attached` attaching characters. A text that ends before a character could be complete is left as it is
from there on. -/
def normalizeFrom (segment : List Piece) (attached : Nat) : List Piece → Bytes
  | [] => render (normalizeSegment segment.reverse)
  | .stray b :: rest =>
    let done := render (normalizeSegment segment.reverse)
    if (render rest).length + 1 < encodedSize b then done ++ b :: render rest
    else done ++ normalizeFrom [.stray b] 0 rest
  | .char c :: rest =>
    let n := c.toNat
    if maxAttached < attached + leading n then
      render (normalizeSegment segment.reverse ++ [graphemeJoiner]) ++ normalizeFrom [.char c] (leading n) rest
    else if leading n = 0 then
      render (normalizeSegment segment.reverse) ++ normalizeFrom [.char c] (trailing n) rest
    else normalizeFrom (.char c :: segment) (attached + leading n) rest

end Nfc

def nfc (x : Bytes) : Bytes :=
  if x.all (· < 0x80) then x else Nfc.normalizeFrom [] 0 (Utf8.pieces x)

end LetStack.Text
