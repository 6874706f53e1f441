import LetStack.Text.Width

/-!
A bar that shows what part of the work is done. The part shown moves towards the true one like a mass
on a spring, one step per frame, until it is close and slow.
-/

namespace LetStack

structure Bar where
  /-- Columns, with the number behind the bar. -/
  columns : Nat := 76
  shown : Float := 0
  target : Float := 0
  velocity : Float := 0
  /-- Whether another frame is due. -/
  moving : Bool := false
  deriving Inhabited

namespace Bar

/-- Sets the part that is done, between 0 and 1. -/
def aim (b : Bar) (part : Float) : Bar :=
  { b with target := if part < 0 then 0 else if 1 < part then 1 else part, moving := true }

/-- Whether the part shown is close to the true one and not moving away fast. -/
def isSettled (b : Bar) : Bool := (b.shown - b.target).abs < 0.001 && b.velocity < 0.01

/-- The time between two frames, in seconds. -/
def frameTime : Float := 0.016666666

/-- The stiffness of the spring. -/
def frequency : Float := 18

/-- One step of a critically damped spring. -/
def move (b : Bar) : Bar :=
  let decay := Float.exp (-(frequency * frameTime))
  let t := frameTime * decay
  let f := t * frequency
  let distance := b.shown - b.target
  { b with shown := distance * (f + decay) + b.velocity * t + b.target
           velocity := distance * (-frequency * f) + b.velocity * (decay - f) }

def frame (b : Bar) : Bar :=
  if !b.moving then b else if b.isSettled then { b with moving := false } else b.move

def frames (b : Bar) (n : Nat) : Bar := (List.range n).foldl (fun b _ => b.frame) b

/-- A number that is not negative, rounded to the nearest whole one, a half to even. -/
def roundEven (x : Float) : Nat :=
  let down := x.floor
  let n := down.toUInt64.toNat
  if 0.5 < x - down || (x - down == 0.5 && n % 2 == 1) then n + 1 else n

inductive Fault where
  /-- The bytes of its empty cells cannot be counted in 64 bits. -/
  | uncountable
  /-- There is no room for them. -/
  | noRoom
  deriving DecidableEq, Repr

/-- The words for a fault that is detected; the other has none. -/
def Fault.message? : Fault → Option Bytes
  | uncountable => some "strings: Repeat output length overflow"
  | noRoom => none

/-- The cells of a bar that are not full, three bytes each, where there is room for so many bytes. -/
def emptyCells (room n : Nat) : Except Fault Bytes :=
  if 0x7FFFFFFFFFFFFFFF < 3 * n then .error .uncountable
  else if room < 3 * n then .error .noRoom
  else .ok (Bytes.repeated n "░")

/-- The bar with a part of it full, and the part as a percentage. -/
def view (b : Bar) (room : Nat) (part : Float) : Except Fault Bytes := do
  let clamped := if part < 0 then 0 else if 1 < part then 1 else part
  let number : Bytes := " " ++ Bytes.padLeft 3 (Bytes.ofNat (roundEven (clamped * 100))) ++ "%"
  let cells := b.columns - number.length
  let full := min cells (if part < 0 then 0 else (cells.toFloat * part).round.toUInt64.toNat)
  let rest ← emptyCells room (cells - full)
  return Bytes.repeated full "█" ++ rest ++ number

end Bar

end LetStack
