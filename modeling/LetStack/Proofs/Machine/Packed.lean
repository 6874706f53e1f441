import LetStack.Machine.Packed
import LetStack.Proofs.MessagePack.RoundTrip

/-!
A packed program unpacks to itself if its texts are short enough for lengths of 32 bits and no operand is a negative
zero, which is written as nothing (`Portable`).
-/

namespace LetStack.Machine
open MessagePack

namespace Instr

/-- The operands can be told from what is written of them. -/
structure Portable (i : Instr) : Prop where
  str_length : i.str.length < 0x100000000
  float_zero : i.float.isZero → i.float = .zero

def readBack (i : Instr) : Instr := { i with op := .ofNumber (i.op.number % 256) }

theorem unpack_reads {i : Instr} (h : i.Portable) : Reads (unpack blank) i.pack i.readBack := by
  -- The instruction after each field that may be left out.
  let op : Instr := { op := i.readBack.op }
  let int : Instr := { op with int := i.int }
  let float : Instr := { int with float := i.float }
  let str : Instr := { float with str := i.str }
  let count : Instr := { str with count := i.count }
  have int_read : ReadsFields fields (fieldUnless (i.int = 0) "i" (writeInt64 i.int)) op int :=
    .unless (fun n => { op with int := n }) rfl (by decide) of_decide_eq_true ((readInt64_reads i.int).map _)
  have float_read : ReadsFields fields (fieldUnless i.float.isZero "f" (writeFloat i.float)) int float :=
    .unless (fun x => { int with float := x }) rfl (by decide) h.float_zero ((readFloat_reads i.float).map _)
  have str_read : ReadsFields fields (fieldUnless (i.str = []) "s" (writeText i.str)) float str :=
    .unless (fun s => { float with str := s }) rfl (by decide) of_decide_eq_true
      ((readText_reads h.str_length).map _)
  have count_read : ReadsFields fields (fieldUnless (i.count = 0) "n" (writeWord32 i.count.toNat)) str count :=
    .unless (fun n => { str with count := n }) rfl (by decide) of_decide_eq_true
      (readWord_reads i.count fun n => { str with count := n })
  have line_read : ReadsFields fields (fieldUnless (i.line = 0) "l" (writeWord32 i.line.toNat)) count i.readBack :=
    .unless (fun n => { count with line := n }) rfl (by decide) of_decide_eq_true
      (readWord_reads i.line fun n => { count with line := n })
  refine readRecord_reads (.cons rfl (by decide) ((readNat_byte i.op.number).map _) ?_) ?_
  · exact (((int_read.append float_read).append str_read).append count_read).append line_read
  · have short := length_fieldUnless
    simp only [List.length_cons, List.length_append]
    grind

theorem str_length_le (i : Instr) : i.str.length ≤ i.pack.length := by
  by_cases empty : i.str = []
  · rw [empty]
    exact Nat.zero_le _
  · have field : (writeText i.str).length ≤ i.pack.length := by
      refine @length_le_writeRecord _ "s" _ ?_
      simp [fieldUnless, empty]
    exact Nat.le_trans (length_le_writeText i.str) field

theorem readBack_of_mem_all {i : Instr} (h : i.op ∈ Opcode.all) : i.readBack = i := by
  have known : ∀ op ∈ Opcode.all, Opcode.ofNumber (op.number % 256) = op := by decide
  rw [readBack, known i.op h]

end Instr

namespace Program

/-- The program can be told from what is written of it. -/
structure Portable (p : Program) : Prop where
  source_length : p.source.length < 0x100000000
  instrs_length : p.instrs.length < 0x100000000
  instrs : ∀ i ∈ p.instrs, i.Portable
  /-- A program that never held an instruction is written without a list. -/
  instrs_nil : p.begun = false → p.instrs = []

def readBack (p : Program) : Program := { p with instrs := p.instrs.map .readBack }

/-- Every length in a program is shorter than what is written of the program. -/
theorem portable_of_length {p : Program} (short : p.pack.length < 0x100000000)
    (floats : ∀ i ∈ p.instrs, i.float.isZero → i.float = .zero) (none : p.begun = false → p.instrs = []) :
    p.Portable := by
  have source : (writeText p.source).length ≤ p.pack.length := length_le_writeRecord (.head _)
  have code : (if p.begun then writeList Instr.pack p.instrs else writeNil).length ≤ p.pack.length :=
    length_le_writeRecord (.tail _ (.head _))
  have text := length_le_writeText p.source
  refine ⟨by omega, ?_, fun i mem => ⟨?_, floats i mem⟩, none⟩
  · cases begun : p.begun with
    | false => rw [none begun]; decide
    | true =>
      rw [if_pos begun] at code
      have count := count_le_writeList Instr.pack (fun _ => writeRecord_pos _) p.instrs
      omega
  · cases begun : p.begun with
    | false => rw [none begun] at mem; cases mem
    | true =>
      rw [if_pos begun] at code
      have item : i.pack.length ≤ (writeList Instr.pack p.instrs).length := length_le_writeList mem
      have str := i.str_length_le
      omega

theorem code_reads {p : Program} (h : p.Portable) :
    Reads (readSlots .blank Instr.unpack {}) (if p.begun then writeList Instr.pack p.instrs else writeNil)
      { items := p.instrs.map .readBack, present := p.begun } := by
  cases begun : p.begun with
  | true => exact readSlots_reads h.instrs_length fun i mem => Instr.unpack_reads (h.instrs i mem)
  | false =>
    rw [h.instrs_nil begun]
    exact readSlots_nil _ _ _

theorem draft_reads {p : Program} (h : p.Portable) :
    Reads (readRecord {} fields {}) p.pack
      { source := p.source, code := { items := p.instrs.map .readBack, present := p.begun } } :=
  readRecord_reads (.cons rfl (by decide) ((readText_reads h.source_length).map _)
    (.cons rfl (by decide) ((code_reads h).map _) (.nil _))) (by simp)

theorem unpack_pack {p : Program} (h : p.Portable) :
    unpack p.pack = match p.readBack.firstInvalid? with
      | some (n, op) => .error (.invalidOpcode n op)
      | none => .ok p.readBack := by
  have read := draft_reads h []
  rw [List.append_nil] at read
  rw [unpack, read]
  rfl

theorem firstInvalid?_eq_none {p : Program} (h : ∀ i ∈ p.instrs, i.op ∈ Opcode.all) : p.firstInvalid? = none := by
  have valid : ∀ op ∈ Opcode.all, op.isValid := by decide
  have missing : (p.instrs.findIdx? fun i => !i.op.isValid) = none := by
    rw [List.findIdx?_eq_none_iff]
    intro i mem
    rw [valid i.op (h i mem), Bool.not_true]
  rw [firstInvalid?, missing, Option.bind_none]

theorem unpack_pack_of_known {p : Program} (h : p.Portable) (known : ∀ i ∈ p.instrs, i.op ∈ Opcode.all) :
    unpack p.pack = .ok p := by
  have same : p.readBack = p := by
    rw [readBack, List.map_congr_left fun i mem => Instr.readBack_of_mem_all (known i mem), List.map_id']
  rw [unpack_pack h, same, firstInvalid?_eq_none known]

end Program

end LetStack.Machine
