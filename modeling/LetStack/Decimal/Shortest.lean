import LetStack.Decimal.Binary64

/-!
Writing a floating-point number in the fewest digits that read back as it, the nearest of those to
the number. Numbers with a decimal exponent from -4 to 5 are written positionally, all others with
an exponent of at least two digits.
-/

namespace LetStack.Binary64

/-- The least `t` with `den ≤ num · 10^t`, searched up to `fuel`. -/
def shiftToOne (num den : Nat) : Nat → Nat
  | 0 => 0
  | fuel + 1 => if den ≤ num then 0 else shiftToOne (num * 10) den fuel + 1

/-- The `p` with `10^(p-1) ≤ num / den < 10^p`. -/
def decimalPoint (num den : Nat) : Int :=
  if den ≤ num then (Nat.toDigits 10 (num / den)).length
  else 1 - (shiftToOne num den 400 : Int)

/-- A positive finite number with the bounds of what reads back as it, over one denominator. -/
structure Interval where
  low : Nat
  value : Nat
  high : Nat
  den : Nat
  /-- Whether the bounds themselves read back as the number. -/
  closed : Bool

/-- The bounds lie half way to the neighbours; below a power of two the neighbour is nearer. -/
def interval (x : Binary64) : Interval :=
  let m := x.mantissa
  let q := x.exponent - 2
  let scale := Nat.pow 2 q.toNat
  let below := if x.fraction = 0 ∧ 1 < x.exponentBits then 1 else 2
  { low := (4 * m - below) * scale, value := 4 * m * scale, high := (4 * m + 2) * scale
    den := Nat.pow 2 (-q).toNat, closed := m % 2 = 0 }

/-- Whether `d` digits at the decimal place `10^-places` read back. -/
def Interval.admits (i : Interval) (places : Int) (d : Nat) : Bool :=
  let scaled (n : Nat) : Nat := n * Nat.pow 10 places.toNat
  let it := d * i.den * Nat.pow 10 (-places).toNat
  if i.closed then scaled i.low ≤ it && it ≤ scaled i.high
  else scaled i.low < it && it < scaled i.high

/-- The number of the decimal place `10^-places` nearest to the value that reads back, if one does;
of two equally near ones the even one. -/
def Interval.nearest? (i : Interval) (places : Int) : Option Nat :=
  let num := i.value * Nat.pow 10 places.toNat
  let den := i.den * Nat.pow 10 (-places).toNat
  let below := num / den
  let near := roundQuotient num den
  let far := if near = below then below + 1 else below
  if i.admits places near then some near else if i.admits places far then some far else none

/-- The first place, from `digits` digits on, with a number that reads back. -/
def Interval.shortest (i : Interval) (point : Int) (digits : Nat) : Nat → Nat × Int
  | 0 => (0, 0)
  | fuel + 1 =>
    match i.nearest? (digits - point) with
    | some d => (d, digits - point)
    | none => i.shortest point (digits + 1) fuel

/-- The shortest digits `d` and places `p` such that `d · 10^-p` reads back as a positive finite
number. -/
def shortestDigits (x : Binary64) : Nat × Int :=
  let i := x.interval
  i.shortest (decimalPoint i.value i.den) 1 17

/-- The digits without the zeros at their end. -/
def significant (d : Nat) : List Char :=
  ((Nat.toDigits 10 d).reverse.dropWhile (· == '0')).reverse

def renderPositive (x : Binary64) : Bytes :=
  let (d, places) := x.shortestDigits
  let all := Nat.toDigits 10 d
  let ds := significant d
  /- Where the point stands, counted from the first digit. -/
  let point : Int := all.length - places
  let digits (cs : List Char) : Bytes := Bytes.ofString (String.ofList cs)
  let zeros (n : Nat) : Bytes := List.replicate n 0x30
  if point < -3 ∨ 6 < point then
    let e := point - 1
    let fraction : Bytes := if 1 < ds.length then "." ++ digits (ds.drop 1) else []
    let sign : Bytes := if e < 0 then "-" else "+"
    digits (ds.take 1) ++ fraction ++ "e" ++ sign ++ Bytes.padZeros 2 (Bytes.ofNat e.natAbs)
  else if point ≤ 0 then "0." ++ zeros (-point).toNat ++ digits ds
  else
    let n := point.toNat
    let whole := digits (ds.take n) ++ zeros (n - ds.length)
    if n < ds.length then whole ++ "." ++ digits (ds.drop n) else whole

def render (x : Binary64) : Bytes :=
  if x.isNan then "NaN"
  else
    let sign : Bytes := if x.isNegative then "-" else []
    if !x.isFinite then (if x.isNegative then "-Inf" else "+Inf")
    else if x.isZero then sign ++ "0"
    else sign ++ x.renderPositive

end LetStack.Binary64
