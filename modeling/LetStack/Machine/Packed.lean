import LetStack.Machine.Program
import LetStack.MessagePack.Reader
import LetStack.MessagePack.Writer

/-!
Programs in MessagePack: a record of source and instructions, an instruction being a record of its
opcode and of those operands that are not zero. Reading checks that every opcode is valid.
-/

namespace LetStack.Machine
open MessagePack

namespace Instr

def pack (i : Instr) : Bytes :=
  writeRecord
    (("op", writeByte i.op.number) ::
     (fieldUnless (i.int = 0) "i" (writeInt64 i.int) ++
      fieldUnless i.float.isZero "f" (writeFloat i.float) ++
      fieldUnless (i.str = []) "s" (writeText i.str) ++
      fieldUnless (i.count = 0) "n" (writeWord32 i.count.toNat) ++
      fieldUnless (i.line = 0) "l" (writeWord32 i.line.toNat)))

def fields : Fields Instr :=
  [("op", fun i => do return { i with op := .ofNumber (← readNat 1) }),
   ("i", fun i => do return { i with int := ← readInt64 }),
   ("f", fun i => do return { i with float := ← readFloat }),
   ("s", fun i => do return { i with str := ← readText }),
   ("n", fun i => do return { i with count := UInt32.ofNat (← readNat 4) }),
   ("l", fun i => do return { i with line := UInt32.ofNat (← readNat 4) })]

def blank : Instr := { op := .unknown 0 }

def unpack (i : Instr) : Reader Instr := readRecord blank fields i

end Instr

inductive UnpackError where
  /-- The bytes are no program. -/
  | malformed
  | invalidOpcode (index : Nat) (op : Opcode)
  deriving DecidableEq, Repr

/-- The words for an opcode that does not exist. -/
def UnpackError.message : UnpackError → Bytes
  | malformed => "decode program"
  | invalidOpcode index op =>
    "decode program: instruction " ++ Bytes.ofNat index ++ ": invalid opcode " ++ Bytes.ofNat op.number

namespace Program

def pack (p : Program) : Bytes :=
  writeRecord
    [("src", writeText p.source),
     ("code", if p.begun then writeList Instr.pack p.instrs else writeNil)]

structure Draft where
  source : Bytes := []
  code : Slots Instr := {}

def Draft.program (d : Draft) : Program :=
  { source := d.source, instrs := d.code.items, begun := d.code.present }

def fields : Fields Draft :=
  [("src", fun d => do return { d with source := ← readText }),
   ("code", fun d => do return { d with code := ← readSlots .blank Instr.unpack d.code })]

def firstInvalid? (p : Program) : Option (Nat × Opcode) :=
  (p.instrs.findIdx? fun i => !i.op.isValid).bind fun n => p.instrs[n]?.map fun i => (n, i.op)

/-- The program in the bytes; what follows it is ignored. -/
def unpack (x : Bytes) : Except UnpackError Program :=
  match (readRecord {} fields {}).run x with
  | none => .error .malformed
  | some (d, _) =>
    match d.program.firstInvalid? with
    | some (n, op) => .error (.invalidOpcode n op)
    | none => .ok d.program

end Program

end LetStack.Machine
