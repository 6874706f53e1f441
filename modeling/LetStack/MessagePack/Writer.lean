import LetStack.Decimal.Binary64

/-!
Writing MessagePack. Numbers keep the width of their type, texts and lists take the shortest header
that holds their length.
-/

namespace LetStack.MessagePack

/-- The last `width` bytes of a number, the most significant first. -/
def bigEndian : Nat → Nat → Bytes
  | 0, _ => []
  | width + 1, n => UInt8.ofNat (n / Nat.pow 256 width) :: bigEndian width n

def writeNil : Bytes := [0xC0]

def writeBool (b : Bool) : Bytes := [if b then 0xC3 else 0xC2]

/-- A number of one byte. -/
def writeByte (n : Nat) : Bytes := 0xCC :: bigEndian 1 n

def writeWord16 (n : Nat) : Bytes := 0xCD :: bigEndian 2 n

def writeWord32 (n : Nat) : Bytes := 0xCE :: bigEndian 4 n

def writeInt64 (n : Int64) : Bytes := 0xD3 :: bigEndian 8 n.toUInt64.toNat

def writeFloat (x : Binary64) : Bytes := 0xCB :: bigEndian 8 x.bits.toNat

def textHeader (n : Nat) : Bytes :=
  if n < 32 then [UInt8.ofNat (0xA0 + n)]
  else if n < 256 then 0xD9 :: bigEndian 1 n
  else if n < 65536 then 0xDA :: bigEndian 2 n
  else 0xDB :: bigEndian 4 n

def writeText (s : Bytes) : Bytes := textHeader s.length ++ s

def writeBinary (s : Bytes) : Bytes :=
  (if s.length < 256 then 0xC4 :: bigEndian 1 s.length
   else if s.length < 65536 then 0xC5 :: bigEndian 2 s.length
   else 0xC6 :: bigEndian 4 s.length) ++ s

def listHeader (n : Nat) : Bytes :=
  if n < 16 then [UInt8.ofNat (0x90 + n)]
  else if n < 65536 then 0xDC :: bigEndian 2 n
  else 0xDD :: bigEndian 4 n

def recordHeader (n : Nat) : Bytes :=
  if n < 16 then [UInt8.ofNat (0x80 + n)]
  else if n < 65536 then 0xDE :: bigEndian 2 n
  else 0xDF :: bigEndian 4 n

/-- A field that is left out when its value is zero. -/
def fieldUnless (isZero : Bool) (key value : Bytes) : List (Bytes × Bytes) :=
  if isZero then [] else [(key, value)]

/-- A record of named fields, each already written. -/
def writeRecord (fields : List (Bytes × Bytes)) : Bytes :=
  recordHeader fields.length ++ fields.flatMap fun (key, value) => writeText key ++ value

def writeList {α : Type} (write : α → Bytes) (xs : List α) : Bytes :=
  listHeader xs.length ++ xs.flatMap write

end LetStack.MessagePack
