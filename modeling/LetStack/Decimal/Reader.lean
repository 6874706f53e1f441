import LetStack.Decimal.Binary64

/-!
Reading a floating-point number from text: an optional sign, then `inf`, `infinity`, `nan` in any
case, or digits with an optional point and exponent. Digits behind `0x` are hexadecimal and need a
binary exponent marked `p`. An underscore may stand between two digits.
-/

namespace LetStack.Binary64

inductive ReadError where
  | malformed
  | outOfRange
  deriving DecidableEq, Repr

/-- Where an underscore check stands: at the start, behind a digit, behind an underscore, or behind
anything else. -/
inductive LastSeen where
  | start | digit | underscore | other
  deriving DecidableEq, Repr

/-- Whether every underscore stands between digits, given what came before. -/
def underscoresSeparate (isDigit : UInt8 → Bool) : LastSeen → Bytes → Bool
  | last, [] => last ≠ .underscore
  | last, b :: rest =>
    if isDigit b then underscoresSeparate isDigit .digit rest
    else if b = 0x5F then last = .digit && underscoresSeparate isDigit .underscore rest
    else last ≠ .underscore && underscoresSeparate isDigit .other rest

/-- Whether the underscores of a number without its sign are allowed; a base in front counts as a
digit. -/
def underscoresAllowed : Bytes → Bool
  | 0x30 :: base :: rest =>
    if Bytes.lowerByte base = 0x78 then underscoresSeparate isHexDigit .digit rest
    else if Bytes.lowerByte base = 0x62 ∨ Bytes.lowerByte base = 0x6F then
      underscoresSeparate isDecimalDigit .digit rest
    else underscoresSeparate isDecimalDigit .start (0x30 :: base :: rest)
  | x => underscoresSeparate isDecimalDigit .start x

/-- The digits of a mantissa: their value, how many stand behind the point, whether there was a digit
and a point, and the text behind them. -/
structure Digits where
  value : Nat := 0
  behindPoint : Nat := 0
  any : Bool := false
  point : Bool := false
  rest : Bytes := []

/-- Reads digits of a base with at most one point among them; underscores are passed over. -/
def readDigits (base : Nat) (isDigit : UInt8 → Bool) (d : Digits) : Bytes → Digits
  | [] => { d with rest := [] }
  | b :: rest =>
    if b = 0x5F then readDigits base isDigit d rest
    else if b = 0x2E ∧ ¬d.point then readDigits base isDigit { d with point := true } rest
    else if isDigit b then
      readDigits base isDigit
        { d with
          value := d.value * base + (digitValue? b).getD 0
          behindPoint := d.behindPoint + (if d.point then 1 else 0)
          any := true } rest
    else { d with rest := b :: rest }

/-- The value of exponent digits. Once it has reached 10000 further digits change nothing. -/
def exponentValue (digits : Bytes) : Nat :=
  digits.foldl (fun e b => if b = 0x5F ∨ 10000 ≤ e then e else e * 10 + (digitValue? b).getD 0) 0

/-- The exponent behind a mark, and nothing else behind that. -/
def readExponent? (x : Bytes) : Option Int :=
  let (negative, digits) := match x with
    | 0x2B :: rest => (false, rest)
    | 0x2D :: rest => (true, rest)
    | rest => (false, rest)
  if digits.head?.any isDecimalDigit && digits.all (fun b => isDecimalDigit b || b == 0x5F) then
    some (if negative then -(exponentValue digits : Int) else exponentValue digits)
  else none

/-- `value · base^power` as the nearest number. Powers of ten so great or small that the outcome is
settled are not computed. -/
def scaled (value : Nat) (base : Nat) (power : Int) : Except ReadError Binary64 :=
  if value = 0 then .ok zero
  else if 5000 < power then .error .outOfRange
  else if power + (Nat.log2 value + 1) < -5000 then .ok zero
  else
    match ofQuotient? (value * Nat.pow base power.toNat) (Nat.pow base (-power).toNat) with
    | some x => .ok x
    | none => .error .outOfRange

def readUnsigned (x : Bytes) : Except ReadError Binary64 :=
  let hex : Bool := match x with
    | 0x30 :: base :: _ :: _ => Bytes.lowerByte base = 0x78
    | _ => false
  let d := if hex then readDigits 16 isHexDigit {} (x.drop 2) else readDigits 10 isDecimalDigit {} x
  let mark : UInt8 := if hex then 0x70 else 0x65
  let power? := match d.rest with
    | [] => if hex then none else some 0
    | b :: rest => if Bytes.lowerByte b = mark then readExponent? rest else none
  match power? with
  | none => .error .malformed
  | some power =>
    if d.any ∧ underscoresAllowed x then
      if hex then scaled d.value 2 (power - 4 * d.behindPoint)
      else scaled d.value 10 (power - d.behindPoint)
    else .error .malformed

def ofText (x : Bytes) : Except ReadError Binary64 :=
  let (sign, body) := match x with
    | 0x2B :: rest => (some false, rest)
    | 0x2D :: rest => (some true, rest)
    | _ => (none, x)
  let signed (y : Binary64) : Binary64 := if sign = some true then y.negate else y
  let word := Bytes.lower body
  if word = "inf" ∨ word = "infinity" then .ok (signed infinity)
  else if word = "nan" ∧ sign = none then .ok nan
  else (readUnsigned body).map signed

end LetStack.Binary64
