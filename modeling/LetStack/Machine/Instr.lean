import LetStack.Decimal.Shortest
import LetStack.Text.Quoted

/-!
Instructions of the stack machine. An instruction has room for every kind of operand; which of them
means something depends on its opcode.
-/

namespace LetStack.Machine

inductive Opcode where
  | pushInt | pushDec | pushBool | pushChar | pushStr
  | load | store | pop
  | unary | binary
  /-- Makes a tuple of as many values as its operand says. -/
  | tuple
  /-- A number that stands for no instruction. -/
  | unknown (number : Nat)
  deriving DecidableEq, Repr, Inhabited

namespace Opcode

/-- Every valid opcode, numbered from 1. -/
def all : List Opcode :=
  [pushInt, pushDec, pushBool, pushChar, pushStr, load, store, pop, unary, binary, tuple]

def number : Opcode → Nat
  | pushInt => 1
  | pushDec => 2
  | pushBool => 3
  | pushChar => 4
  | pushStr => 5
  | load => 6
  | store => 7
  | pop => 8
  | unary => 9
  | binary => 10
  | tuple => 11
  | unknown n => n

def ofNumber : Nat → Opcode
  | 1 => pushInt
  | 2 => pushDec
  | 3 => pushBool
  | 4 => pushChar
  | 5 => pushStr
  | 6 => load
  | 7 => store
  | 8 => pop
  | 9 => unary
  | 10 => binary
  | 11 => tuple
  | n => unknown n

def isValid (op : Opcode) : Bool := 0 < op.number && op.number ≤ 11

def name : Opcode → Bytes
  | pushInt => "push.int"
  | pushDec => "push.dec"
  | pushBool => "push.bool"
  | pushChar => "push.char"
  | pushStr => "push.str"
  | load => "load"
  | store => "store"
  | pop => "pop"
  | unary => "unary"
  | binary => "binary"
  | tuple => "tuple"
  | unknown n => "op(" ++ Bytes.ofNat n ++ ")"

end Opcode

structure Instr where
  op : Opcode
  int : Int64 := 0
  float : Binary64 := .zero
  str : Bytes := []
  /-- How many values a tuple takes. -/
  count : UInt32 := 0
  /-- The line of the source, counted from 0. -/
  line : UInt32 := 0
  deriving DecidableEq, Repr, Inhabited

namespace Instr

/-- The character of a code point operand; what is no character becomes U+FFFD. Only the low 32 bits
of the operand count. -/
def charOf (n : Int64) : Char :=
  let v := n.toUInt64.toNat % 0x100000000
  if v < 0xD800 ∨ (0xDFFF < v ∧ v ≤ 0x10FFFF) then Char.ofNat v else Char.ofNat 0xFFFD

/-- The operand as it is listed, none for an instruction without one. -/
def operand? (i : Instr) : Option Bytes :=
  match i.op with
  | .pushInt => some (Bytes.ofInt i.int.toInt)
  | .pushDec => some i.float.render
  | .pushBool => some (if i.int = 0 then "false" else "true")
  | .pushChar => some (Text.quoteChar (charOf i.int))
  | .pushStr => some (Text.quote i.str)
  | .load | .store | .unary | .binary => some i.str
  | .tuple => some (Bytes.ofWord i.count)
  | .pop | .unknown _ => none

def render (i : Instr) : Bytes :=
  match i.operand? with
  | some operand => i.op.name ++ " " ++ operand
  | none => i.op.name

end Instr

end LetStack.Machine
