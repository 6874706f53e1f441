import LetStack.Proofs.Machine.Packed
import LetStack.Proofs.MessagePack.Format

/-!
`Program.pack` writes the record of a program (`Program.item`) in the format of MessagePack. `Program.unpack` gives
the same program if all its opcodes are valid, and fails at one that is not (`packed_program_is_read_again`).
-/

namespace LetStack.Machine
open MessagePack

/-! ## What is written -/

/-- The record of an instruction. Only the opcode is there in any case. -/
def Instr.item (i : Instr) : Item :=
  .record (("op", .byte (UInt8.ofNat i.op.number)) ::
    ([("i", .int i.int), ("f", .float i.float), ("s", .text i.str), ("n", .word i.count), ("l", .word i.line)] :
      List (Bytes × Item)).filter fun field => !field.2.isZero)

/-- The record of a program. The code is a list if there ever was an instruction. -/
def Program.item (p : Program) : Item :=
  .record [("src", .text p.source), ("code", if p.begun then .list (p.instrs.map Instr.item) else .nil)]

theorem Instr.pack_written {i : Instr} (short : i.str.length < 0x100000000) : Written i.item i.pack := by
  have operands :=
    FieldsWritten.unless "i" (by decide) (writeInt64_written i.int)
      (.unless "f" (by decide) (writeFloat_written i.float)
        (.unless "s" (by decide) (writeText_written short)
          (.unless "n" (by decide) (writeWord32_written i.count)
            (@FieldsWritten.unless "l" _ _ [] [] (by decide) (writeWord32_written i.line) .nil))))
  simp only [List.append_nil, ← List.append_assoc] at operands
  refine writeRecord_written (.cons (by decide) (writeByte_written i.op.number) operands) ?_
  have short := length_fieldUnless
  simp only [List.length_cons, List.length_append]
  grind

theorem Program.pack_written {p : Program} (source : p.source.length < 0x100000000)
    (count : p.instrs.length < 0x100000000) (strs : ∀ i ∈ p.instrs, i.str.length < 0x100000000) :
    Written p.item p.pack := by
  have code : Written (if p.begun then .list (p.instrs.map Instr.item) else .nil)
      (if p.begun then writeList Instr.pack p.instrs else writeNil) := by
    split
    · exact writeList_written count fun i member => Instr.pack_written (strs i member)
    · exact .nil
  exact writeRecord_written (.cons (by decide) (writeText_written source) (.cons (by decide) code .nil))
    (by simp)

/-! ## What is read -/

theorem Opcode.number_ofNumber (n : Nat) : (Opcode.ofNumber n).number = n := by
  unfold ofNumber
  split <;> rfl

theorem Opcode.ofNumber_of_invalid {op : Opcode} (invalid : op.isValid = false) : ofNumber op.number = op := by
  cases op with
  | unknown n =>
    show ofNumber n = .unknown n
    unfold ofNumber
    split <;> first | rfl | cases invalid
  | _ => cases invalid

theorem Instr.isValid_readBack {i : Instr} (byte : i.op.number < 256) : i.readBack.op.isValid = i.op.isValid := by
  unfold readBack Opcode.isValid
  rw [Nat.mod_eq_of_lt byte, Opcode.number_ofNumber]

/-- Reading keeps the place and the number of the first opcode that is not valid. -/
theorem Program.firstInvalid?_readBack {p : Program} (bytes : ∀ i ∈ p.instrs, i.op.number < 256)
    (invalid : ∃ i ∈ p.instrs, i.op.isValid = false) :
    ∃ n i, p.instrs[n]? = some i ∧ i.op.isValid = false ∧ p.readBack.firstInvalid? = some (n, i.op) := by
  obtain ⟨i, member, bad⟩ := invalid
  cases found : p.instrs.findIdx? fun i => !i.op.isValid with
  | none =>
    have none := List.findIdx?_eq_none_iff.1 found i member
    rw [bad] at none
    cases none
  | some n =>
    obtain ⟨inside, first, before⟩ := List.findIdx?_eq_some_iff_getElem.1 found
    have bad : p.instrs[n].op.isValid = false := Bool.not_eq_true' _ ▸ first
    have again : (p.instrs.map Instr.readBack).findIdx? (fun i => !i.op.isValid) = some n := by
      refine List.findIdx?_eq_some_iff_getElem.2 ⟨by rwa [List.length_map], ?_, fun m less => ?_⟩
      · rw [List.getElem_map, Instr.isValid_readBack (bytes _ (List.getElem_mem inside))]
        exact first
      · rw [List.getElem_map, Instr.isValid_readBack (bytes _ (List.getElem_mem _))]
        exact before m less
    refine ⟨n, p.instrs[n], List.getElem?_eq_getElem inside, bad, ?_⟩
    have opcode : p.instrs[n].readBack.op = p.instrs[n].op := by
      rw [Instr.readBack, Nat.mod_eq_of_lt (bytes _ (List.getElem_mem inside)), Opcode.ofNumber_of_invalid bad]
    rw [firstInvalid?, readBack, again, Option.bind_some, List.getElem?_map, List.getElem?_eq_getElem inside]
    simp only [Option.map_some, opcode]

/-! ## Both together -/

theorem eq_zero_of_ne_negate {x : Binary64} (h : x ≠ Binary64.zero.negate) (zero : x.isZero = true) : x = .zero := by
  have rest : x.bits.toNat % 0x8000000000000000 = 0 := of_decide_eq_true zero
  have bound := x.bits.toNat_lt
  rcases (by omega : x.bits.toNat = 0 ∨ x.bits.toNat = 0x8000000000000000) with none | sign
  · exact congrArg Binary64.mk (UInt64.toNat_inj.1 none)
  · exact absurd (congrArg Binary64.mk (@UInt64.toNat_inj _ 0x8000000000000000 |>.1 sign)) h

theorem Opcode.isValid_eq_false_iff {op : Opcode} :
    op.isValid = false ↔ op.number = 0 ∨ Opcode.tuple.number < op.number := by
  show (decide (0 < op.number) && decide (op.number ≤ 11)) = false ↔ op.number = 0 ∨ 11 < op.number
  rw [Bool.and_eq_false_iff, decide_eq_false_iff_not, decide_eq_false_iff_not]
  omega

/-- A program whose lengths fit into 32 bits and that has no negative zero is written as its record. It is
read again as it was if its opcodes are the valid ones; an opcode that is 0 or above the last one makes the
reading fail. The code of a program that never held an instruction is no list, so there is none to lose. -/
theorem packed_program_is_read_again {p : Program} (source : p.source.length < 0x100000000)
    (count : p.instrs.length < 0x100000000) (strs : ∀ i ∈ p.instrs, i.str.length < 0x100000000)
    (floats : ∀ i ∈ p.instrs, i.float ≠ Binary64.zero.negate) (bytes : ∀ i ∈ p.instrs, i.op.number < 256)
    (begun : p.begun = false → p.instrs = []) :
    Written p.item p.pack ∧
    ((∀ i ∈ p.instrs, i.op ∈ Opcode.all) → Program.unpack p.pack = .ok p) ∧
    ((∃ i ∈ p.instrs, i.op.number = 0 ∨ Opcode.tuple.number < i.op.number) →
      ∃ n i, p.instrs[n]? = some i ∧ i.op.isValid = false ∧
        Program.unpack p.pack = .error (.invalidOpcode n i.op)) := by
  have portable : p.Portable :=
    ⟨source, count, fun i member => ⟨strs i member, eq_zero_of_ne_negate (floats i member)⟩, begun⟩
  refine ⟨Program.pack_written source count strs, Program.unpack_pack_of_known portable, ?_⟩
  rintro ⟨i, member, bad⟩
  obtain ⟨n, first, found, invalid, reported⟩ :=
    Program.firstInvalid?_readBack bytes ⟨i, member, Opcode.isValid_eq_false_iff.2 bad⟩
  exact ⟨n, first, found, invalid, by rw [Program.unpack_pack portable, reported]⟩

/-- A program with a negative number, a fraction, a text with a header of two bytes and a tuple. -/
private def mixedProgram : Program where
  source := "t.rano"
  instrs := [{ op := .pushInt, int := -5, line := 3 }, { op := .pushDec, float := ⟨0x3FF8000000000000⟩ },
    { op := .pushStr, str := List.replicate 40 0xFF }, { op := .tuple, count := 3 }]
  begun := true

/-- The same program with an opcode behind the last one. -/
private def brokenProgram : Program := mixedProgram.emit { op := .unknown 12 }

theorem mixed_program_is_read_again :
    Written mixedProgram.item mixedProgram.pack ∧ Program.unpack mixedProgram.pack = .ok mixedProgram ∧
    ∃ n i, brokenProgram.instrs[n]? = some i ∧ i.op.isValid = false ∧
      Program.unpack brokenProgram.pack = .error (.invalidOpcode n i.op) := by
  obtain ⟨written, read, _⟩ := @packed_program_is_read_again mixedProgram (by decide) (by decide) (by decide)
    (by decide) (by decide) (by decide)
  obtain ⟨_, _, failed⟩ := @packed_program_is_read_again brokenProgram (by decide) (by decide) (by decide)
    (by decide) (by decide) (by decide)
  exact ⟨written, read (by decide), failed (by decide)⟩

end LetStack.Machine
