import LetStack.Machine.Instr

/-!
A program is the instructions of one source file, in order.
-/

namespace LetStack.Machine

structure Program where
  source : Bytes := []
  instrs : List Instr := []
  /-- Whether the program ever held an instruction. -/
  begun : Bool := false
  deriving DecidableEq, Repr, Inhabited

namespace Program

def append (p : Program) (code : List Instr) : Program :=
  { p with instrs := p.instrs ++ code, begun := p.begun || !code.isEmpty }

def emit (p : Program) (i : Instr) : Program := p.append [i]

def length (p : Program) : Nat := p.instrs.length

/-- Drops every instruction from index `n` on; an index that is negative or behind the end drops
nothing. -/
def truncate (p : Program) (n : Int) : Program :=
  if 0 ≤ n then { p with instrs := p.instrs.take n.toNat } else p

/-- The line of an instruction in a listing: its index in four digits and its text. -/
def listed (index : Nat) (i : Instr) : Bytes :=
  Bytes.padZeros 4 (Bytes.ofNat index) ++ "  " ++ i.render ++ "\n"

/-- The listing: the source if it has a name, then one line an instruction. -/
def render (p : Program) : Bytes :=
  let head : Bytes := if p.source = [] then [] else "; " ++ p.source ++ "\n"
  head ++ (p.instrs.mapIdx listed).flatten

end Program

end LetStack.Machine
