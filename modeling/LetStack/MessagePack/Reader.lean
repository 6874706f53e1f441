import LetStack.Decimal.Binary64

/-!
Reading MessagePack. Any width of number is read into any numeric type and cut to it; `nil` reads as
the zero of every type; a record is a map from field names, in which unknown names are skipped, or a
list with one item for each field.
-/

namespace LetStack.MessagePack

/-- Takes what it needs from the front of the bytes. -/
abbrev Reader (α : Type) := StateT Bytes Option α

def readByte : Reader UInt8 := fun
  | [] => none
  | b :: rest => some (b, rest)

def readBytes (n : Nat) : Reader Bytes := fun x =>
  if n ≤ x.length then some (x.take n, x.drop n) else none

def ofBigEndian (x : Bytes) : Nat := x.foldl (fun n b => n * 256 + b.toNat) 0

def readUnsigned (width : Nat) : Reader Nat := do return ofBigEndian (← readBytes width)

/-- A number of `width` bytes in two's complement. -/
def readSigned (width : Nat) : Reader Int := do
  let n ← readUnsigned width
  return if 2 * n < Nat.pow 256 width then n else (n : Int) - Nat.pow 256 width

/-- The integer whose first byte was `code`. -/
def integerOf (code : UInt8) : Reader Int :=
  if code < 0x80 then pure code.toNat
  else if 0xE0 ≤ code then pure ((code.toNat : Int) - 256)
  else
    match code with
    | 0xC0 => pure 0
    | 0xCC => return (← readUnsigned 1)
    | 0xCD => return (← readUnsigned 2)
    | 0xCE => return (← readUnsigned 4)
    | 0xCF => return (← readUnsigned 8)
    | 0xD0 => readSigned 1
    | 0xD1 => readSigned 2
    | 0xD2 => readSigned 4
    | 0xD3 => readSigned 8
    | _ => failure

def readInteger : Reader Int := do integerOf (← readByte)

/-- An integer cut to an unsigned type of `width` bytes. -/
def readNat (width : Nat) : Reader Nat := do return ((← readInteger) % Nat.pow 256 width).toNat

def readInt64 : Reader Int64 := do return Int64.ofInt (← readInteger)

/-- The 64-bit number equal to a 32-bit one. -/
def widen (bits : Nat) : Binary64 :=
  let sign := bits / 0x80000000 * 0x8000000000000000
  let e := bits / 0x800000 % 256
  let f := bits % 0x800000
  let magnitude :=
    if e = 255 then 0x7FF0000000000000 + f * 0x20000000 + (if f = 0 ∨ 0x400000 ≤ f then 0 else 0x8000000000000)
    else if e = 0 ∧ f = 0 then 0
    else if e = 0 then
      let k := f.log2
      (k + 874) * 0x10000000000000 + (f - Nat.pow 2 k) * Nat.pow 2 (52 - k)
    else (e + 896) * 0x10000000000000 + f * 0x20000000
  ⟨UInt64.ofNat (sign + magnitude)⟩

/-- The number nearest to an integer. -/
def ofInteger (n : Int64) : Binary64 :=
  if n.toInt = 0 then .zero
  else
    let x := (Binary64.ofQuotient? n.toInt.natAbs 1).getD .zero
    if n.toInt < 0 then x.negate else x

def readFloat : Reader Binary64 := do
  match ← readByte with
  | 0xCA => return widen (← readUnsigned 4)
  | 0xCB => return ⟨UInt64.ofNat (← readUnsigned 8)⟩
  | code => return ofInteger (Int64.ofInt (← integerOf code))

def readBool : Reader Bool := do
  match ← readByte with
  | 0xC0 | 0xC2 => return false
  | 0xC3 => return true
  | _ => failure

/-- The length of the text or bytes whose first byte was `code`; none for `nil`. -/
def textLength (code : UInt8) : Reader (Option Nat) :=
  if 0xA0 ≤ code ∧ code < 0xC0 then pure (some (code.toNat - 0xA0))
  else
    match code with
    | 0xC0 => pure none
    | 0xD9 | 0xC4 => return some (← readUnsigned 1)
    | 0xDA | 0xC5 => return some (← readUnsigned 2)
    | 0xDB | 0xC6 => return some (← readUnsigned 4)
    | _ => failure

def readText : Reader Bytes := do readBytes ((← textLength (← readByte)).getD 0)

/-- The length of the list whose first byte was `code`; none for `nil`. -/
def listLength (code : UInt8) : Reader (Option Nat) :=
  if 0x90 ≤ code ∧ code < 0xA0 then pure (some (code.toNat - 0x90))
  else
    match code with
    | 0xC0 => pure none
    | 0xDC => return some (← readUnsigned 2)
    | 0xDD => return some (← readUnsigned 4)
    | _ => failure

/-- The number of fields of the map whose first byte was `code`; none for `nil`. -/
def mapLength (code : UInt8) : Reader (Option Nat) :=
  if 0x80 ≤ code ∧ code < 0x90 then pure (some (code.toNat - 0x80))
  else
    match code with
    | 0xC0 => pure none
    | 0xDE => return some (← readUnsigned 2)
    | 0xDF => return some (← readUnsigned 4)
    | _ => failure

/-- What is left of an item to skip, after its first byte: bytes, and then whole items. -/
def skipPlan (code : UInt8) : Reader (Nat × Nat) :=
  if code < 0x80 ∨ 0xE0 ≤ code then pure (0, 0)
  else if code < 0x90 then pure (0, 2 * (code.toNat - 0x80))
  else if code < 0xA0 then pure (0, code.toNat - 0x90)
  else if code < 0xC0 then pure (code.toNat - 0xA0, 0)
  else
    match code with
    | 0xC0 | 0xC2 | 0xC3 => pure (0, 0)
    | 0xCC | 0xD0 => pure (1, 0)
    | 0xCD | 0xD1 => pure (2, 0)
    | 0xCE | 0xD2 | 0xCA => pure (4, 0)
    | 0xCF | 0xD3 | 0xCB => pure (8, 0)
    | 0xC4 | 0xD9 => return (← readUnsigned 1, 0)
    | 0xC5 | 0xDA => return (← readUnsigned 2, 0)
    | 0xC6 | 0xDB => return (← readUnsigned 4, 0)
    | 0xDC => return (0, ← readUnsigned 2)
    | 0xDD => return (0, ← readUnsigned 4)
    | 0xDE => return (0, 2 * (← readUnsigned 2))
    | 0xDF => return (0, 2 * (← readUnsigned 4))
    | 0xD4 => pure (2, 0)
    | 0xD5 => pure (3, 0)
    | 0xD6 => pure (5, 0)
    | 0xD7 => pure (9, 0)
    | 0xD8 => pure (17, 0)
    | 0xC7 => return (1 + (← readUnsigned 1), 0)
    | 0xC8 => return (1 + (← readUnsigned 2), 0)
    | 0xC9 => return (1 + (← readUnsigned 4), 0)
    | _ => failure

/-- Skips `items` items, each of which takes at least one of at most `fuel` bytes. -/
def skipItems : Nat → Nat → Reader Unit
  | _, 0 => pure ()
  | 0, _ + 1 => failure
  | fuel + 1, items + 1 => do
    let (bytes, inner) ← skipPlan (← readByte)
    let _ ← readBytes bytes
    skipItems fuel (inner + items)

def skip : Reader Unit := do skipItems (← get).length 1

/-- The fields of a record type: how each, by name, is read into a value of the type. -/
abbrev Fields (α : Type) := List (Bytes × (α → Reader α))

def readNamed {α : Type} (fields : Fields α) : Nat → α → Reader α
  | 0, a => pure a
  | n + 1, a => do
    let key ← readText
    match fields.lookup key with
    | some read => readNamed fields n (← read a)
    | none =>
      skip
      readNamed fields n a

def readAll {α : Type} : Fields α → α → Reader α
  | [], a => pure a
  | (_, read) :: fields, a => do readAll fields (← read a)

/-- Reads a record into a value; `nil` and an empty list leave the value `zero`. -/
def readRecord {α : Type} (zero : α) (fields : Fields α) (a : α) : Reader α := do
  let code ← readByte
  let start ← get
  match (mapLength code).run start with
  | some (none, rest) =>
    set rest
    return zero
  | some (some n, rest) =>
    set rest
    readNamed fields n a
  | none =>
    match ← listLength code with
    | none | some 0 => return zero
    | some n => if n = fields.length then readAll fields a else failure

/-- Reads `n` items; the old items are what the new ones are read into. -/
def readItems {α : Type} (zero : α) (read : α → Reader α) : Nat → List α → Reader (List α)
  | 0, _ => pure []
  | n + 1, old => do
    let a ← read (old.head?.getD zero)
    return a :: (← readItems zero read n (old.drop 1))

/-- A list that a record may give more than once. A list is read over the items of the one before it, and
those that a shorter list leaves over stay behind it for a longer one. -/
structure Slots (α : Type) where
  items : List α := []
  behind : List α := []
  /-- Whether there is a list at all; `nil` takes it away with everything behind it. -/
  present : Bool := false

/-- Reads a list over the one before it. -/
def readSlots {α : Type} (zero : α) (read : α → Reader α) (old : Slots α) : Reader (Slots α) := do
  match ← listLength (← readByte) with
  | none => return {}
  | some n =>
    let room := old.items ++ old.behind
    return { items := ← readItems zero read n room, behind := room.drop n, present := true }

end LetStack.MessagePack
