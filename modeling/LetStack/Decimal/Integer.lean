import LetStack.Decimal.Reader

/-!
Integers of 64 bits in writing. Digits are read in order, and the first one that does not belong or
does not fit decides what is wrong.
-/

namespace LetStack.Integer

inductive ReadError where
  | malformed
  | outOfRange
  deriving DecidableEq, Repr

/-- Digits read behind those with the value `n`; the first digit of no such base or the first excess
over 64 bits decides. -/
def readDigits (base n : Nat) : Bytes → Except ReadError Nat
  | [] => .ok n
  | b :: rest =>
    match digitValue? b with
    | none => .error .malformed
    | some d =>
      if base ≤ d then .error .malformed
      else if 0x10000000000000000 ≤ n * base + d then .error .outOfRange
      else readDigits base (n * base + d) rest

/-- A number without sign below 2^64. -/
def readUnsigned (digits : Bytes) (base : Nat) : Except ReadError Nat :=
  if digits = [] then .error .malformed else readDigits base 0 digits

/-- A number without sign below 2^64 that says its base: `0b`, `0o` and `0x` in front of digits or just
`0` for base 8, else ten. Underscores may separate digits. -/
def readMarked (x : Bytes) : Except ReadError Nat :=
  let (digits, base) := match x with
    | 0x30 :: mark :: d :: rest =>
      if Bytes.lowerByte mark = 0x62 then (d :: rest, 2)
      else if Bytes.lowerByte mark = 0x6F then (d :: rest, 8)
      else if Bytes.lowerByte mark = 0x78 then (d :: rest, 16)
      else (mark :: d :: rest, 8)
    | 0x30 :: rest => (rest, 8)
    | _ => (x, 10)
  if x = [] then .error .malformed
  else
    match readDigits base 0 (digits.filter (· ≠ 0x5F)) with
    | .error e => .error e
    | .ok n =>
      if digits.contains 0x5F && !Binary64.underscoresAllowed x then .error .malformed else .ok n

/-- A number with an optional sign that fits 64 bits in two's complement, its size read in some way. -/
def readSignedBy (size : Bytes → Except ReadError Nat) (x : Bytes) : Except ReadError Int64 :=
  let (negative, magnitude) := match x with
    | 0x2B :: rest => (false, rest)
    | 0x2D :: rest => (true, rest)
    | _ => (false, x)
  match size magnitude with
  | .error e => .error e
  | .ok n =>
    if negative then (if n ≤ 0x8000000000000000 then .ok (Int64.ofInt (-(n : Int))) else .error .outOfRange)
    else if n < 0x8000000000000000 then .ok (Int64.ofInt n)
    else .error .outOfRange

def readSigned (digits : Bytes) (base : Nat) : Except ReadError Int64 :=
  readSignedBy (fun size => readUnsigned size base) digits

/-- A number with an optional sign that says its base. -/
def ofText (x : Bytes) : Except ReadError Int64 := readSignedBy readMarked x

end LetStack.Integer
