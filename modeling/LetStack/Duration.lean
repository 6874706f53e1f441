import LetStack.Text.Utf8

/-!
Lengths of time, in nanoseconds, and how they are written.
-/

namespace LetStack

/-- A number of nanoseconds. -/
abbrev Duration := Int64

namespace Duration

def nanos (d : Duration) : Int := d.toInt

/-- In milliseconds with a number of decimal places, a half rounded to even. -/
def milliseconds (places : Nat) (d : Duration) : Bytes :=
  let unit := 1000000
  let scaled := d.nanos.natAbs * Nat.pow 10 places
  let down := scaled / unit
  let rest := 2 * (scaled % unit)
  let n := if unit < rest ∨ (rest = unit ∧ down % 2 = 1) then down + 1 else down
  let digits := Bytes.padZeros (places + 1) (Bytes.ofNat n)
  let sign : Bytes := if d < 0 then "-" else []
  sign ++ digits.take (digits.length - places) ++ Bytes.ofString "." ++ digits.drop (digits.length - places)

/-- Rounded to microseconds, a half away from zero; at the ends of the range, the end. -/
def toMicros (d : Duration) : Duration :=
  let n := (d.nanos.natAbs + 500) / 1000 * 1000
  if d < 0 then (if n ≤ 0x8000000000000000 then Int64.ofInt (-n) else Int64.minValue)
  else if n < 0x8000000000000000 then Int64.ofNat n else Int64.maxValue

/-- A number of parts, of which `10 ^ places` make one, as a decimal without zeros at its end. -/
def decimal (places n : Nat) : Bytes :=
  let fraction := Bytes.padZeros places (Bytes.ofNat (n % Nat.pow 10 places))
  let shown := (fraction.reverse.dropWhile (· = 0x30)).reverse
  Bytes.ofNat (n / Nat.pow 10 places) ++ (if places = 0 ∨ shown = [] then [] else Bytes.ofString "." ++ shown)

/-- A length of time that is not negative: below a second in the largest unit that fits, else in hours,
minutes and seconds. -/
def renderSize (n : Nat) : Bytes :=
  if n = 0 then "0s"
  else if n < 1000 then Bytes.ofNat n ++ Bytes.ofString "ns"
  else if n < 1000000 then decimal 3 n ++ Bytes.ofString "µs"
  else if n < 1000000000 then decimal 6 n ++ Bytes.ofString "ms"
  else
    let seconds := decimal 9 (n % 60000000000) ++ Bytes.ofString "s"
    let minutes := n / 60000000000
    if minutes = 0 then seconds
    else if minutes < 60 then Bytes.ofNat minutes ++ Bytes.ofString "m" ++ seconds
    else Bytes.ofNat (minutes / 60) ++ Bytes.ofString "h" ++ Bytes.ofNat (minutes % 60) ++ Bytes.ofString "m" ++ seconds

def render (d : Duration) : Bytes :=
  if d < 0 then "-" ++ renderSize d.nanos.natAbs else renderSize d.nanos.natAbs

end Duration

end LetStack
