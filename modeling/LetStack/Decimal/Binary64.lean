import LetStack.Text.Bytes

/-!
Floating-point numbers of 64 bits by their bit patterns: a sign, 11 bits of exponent and 52 of
fraction. A finite number is `mantissa · 2^exponent`; rounding goes to the nearest number, and from
the middle to the even one.
-/

namespace LetStack

structure Binary64 where
  bits : UInt64
  deriving DecidableEq, Repr, Inhabited

namespace Binary64

def zero : Binary64 := ⟨0⟩
def infinity : Binary64 := ⟨0x7FF0000000000000⟩
/-- The pattern that stands for every result that is no number. -/
def nan : Binary64 := ⟨0x7FF8000000000001⟩

def isNegative (x : Binary64) : Bool := 0x8000000000000000 ≤ x.bits.toNat

def exponentBits (x : Binary64) : Nat := x.bits.toNat / 0x10000000000000 % 2048

def fraction (x : Binary64) : Nat := x.bits.toNat % 0x10000000000000

def isFinite (x : Binary64) : Bool := x.exponentBits ≠ 2047

def isNan (x : Binary64) : Bool := x.exponentBits = 2047 ∧ x.fraction ≠ 0

def isZero (x : Binary64) : Bool := x.bits.toNat % 0x8000000000000000 = 0

/-- A finite number without its sign is this times a power of two. -/
def mantissa (x : Binary64) : Nat := if x.exponentBits = 0 then x.fraction else 0x10000000000000 + x.fraction

/-- The power of two that goes with the mantissa. -/
def exponent (x : Binary64) : Int := if x.exponentBits = 0 then -1074 else x.exponentBits - 1075

def negate (x : Binary64) : Binary64 := ⟨x.bits ^^^ 0x8000000000000000⟩

/-- The quotient rounded to the nearest natural number, from the middle to the even one. -/
def roundQuotient (num den : Nat) : Nat :=
  let q := num / den
  let twice := 2 * (num % den)
  if twice < den then q else if den < twice then q + 1 else q + q % 2

/-- The greatest `k` with `2^k ≤ num / den`, for positive numbers. -/
def log2Quotient (num den : Nat) : Int :=
  let k : Int := num.log2 - den.log2
  if num * Nat.pow 2 (-k).toNat < den * Nat.pow 2 k.toNat then k - 1 else k

/-- The number nearest to a positive quotient, none when it is too great for any. -/
def ofQuotient? (num den : Nat) : Option Binary64 :=
  let e := max (-1074) (log2Quotient num den - 52)
  let q := roundQuotient (num * Nat.pow 2 (-e).toNat) (den * Nat.pow 2 e.toNat)
  let bits := q + (e + 1074).toNat * 0x10000000000000
  if bits < 0x7FF0000000000000 then some ⟨UInt64.ofNat bits⟩ else none

end Binary64

end LetStack
