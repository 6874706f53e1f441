import LetStack.Proofs.Lower.Decoding
import LetStack.Proofs.Lower.Tree

/-!
Every instruction that is emitted exists and has no negative zero, since literals have no sign
(`Ast.Statement.lower_proper`); the codes of faults have sixteen bits (`Ast.Statement.lower_code_lt`).
-/

namespace LetStack

/-! ## Numbers without sign -/

namespace Binary64

theorem eq_zero_of_isZero {x : Binary64} (positive : x.isNegative = false) (h : x.isZero = true) : x = .zero := by
  have below : x.bits.toNat < 0x8000000000000000 := Nat.lt_of_not_le (of_decide_eq_false positive)
  have none : x.bits.toNat % 0x8000000000000000 = 0 := of_decide_eq_true h
  rw [Nat.mod_eq_of_lt below] at none
  have bits : x.bits = 0 := UInt64.toNat_inj.1 none
  rw [zero, ← bits]

theorem ofQuotient?_positive {num den : Nat} {x : Binary64} (h : ofQuotient? num den = some x) :
    x.isNegative = false := by
  unfold ofQuotient? at h
  extract_lets e q bits at h
  split at h
  · next small =>
    cases h
    have fits : bits < UInt64.size := Nat.lt_trans small (by decide)
    refine decide_eq_false (Nat.not_le.2 ?_)
    rw [UInt64.toNat_ofNat_of_lt' fits]
    exact Nat.lt_trans small (by decide)
  · cases h

theorem scaled_positive {value base : Nat} {power : Int} {x : Binary64} (h : scaled value base power = .ok x) :
    x.isNegative = false := by
  unfold scaled at h
  split at h
  · cases h; rfl
  split at h
  · cases h
  split at h
  · cases h; rfl
  split at h
  · next quotient =>
    cases h
    exact ofQuotient?_positive quotient
  · cases h

theorem readUnsigned_positive {x : Bytes} {y : Binary64} (h : readUnsigned x = .ok y) : y.isNegative = false := by
  unfold readUnsigned at h
  extract_lets hex d mark power? at h
  cases found : power? with
  | none =>
    rw [found] at h
    cases h
  | some power =>
    rw [found] at h
    dsimp only at h
    split at h
    · split at h <;> exact scaled_positive h
    · cases h

end Binary64

/-! ## Instructions -/

namespace Machine

theorem Opcode.mem_all {op : Opcode} (h : ∀ n, op ≠ .unknown n) : op ∈ all := by
  cases op with
  | unknown n => exact absurd rfl (h n)
  | _ => decide

/-- An instruction that exists and whose number is no negative zero. -/
structure Instr.Proper (i : Instr) : Prop where
  op : i.op ∈ Opcode.all
  float : i.float.isZero → i.float = .zero

theorem Instr.Proper.of_op {i : Instr} (op : ∀ n, i.op ≠ .unknown n) (float : i.float = .zero) : i.Proper :=
  ⟨Opcode.mem_all op, fun _ => float⟩

end Machine

namespace Lower
open Ast Machine

/-- Every instruction of a piece exists. -/
structure Lowered.Proper (a : Lowered) : Prop where
  code : ∀ i ∈ a.code, i.Proper

theorem Lowered.proper_emit {i : Instr} (h : i.Proper) (span : Span) : (Lowered.emit i span).Proper := by
  refine ⟨fun j mem => ?_⟩
  cases List.mem_singleton.1 mem
  exact ⟨h.op, h.float⟩

theorem Lowered.Proper.emit {i : Instr} {span : Span} (op : ∀ n, i.op ≠ .unknown n) (float : i.float = .zero) :
    (Lowered.emit i span).Proper :=
  Lowered.proper_emit (.of_op op float) span

theorem Lowered.proper_fault (f : Fault) : (Lowered.fault f).Proper := ⟨fun _ mem => nomatch mem⟩

theorem Lowered.Proper.andThen {a b : Lowered} (ha : a.Proper) (hb : b.Proper) : (a.andThen b).Proper := by
  unfold Lowered.andThen
  split
  · refine ⟨fun i mem => ?_⟩
    rcases List.mem_append.1 mem with first | second
    · exact ha.code i first
    · exact hb.code i second
  · exact ha

theorem literalInstr_proper {k : Token.Kind} {kind : LiteralKind} (pair : (k, kind) ∈ Grammar.literalKinds)
    {raw : Bytes} (text : Token.LiteralText k raw) {span : Span} {i : Instr}
    (h : literalInstr (.known kind) raw span = .ok i) : i.Proper := by
  cases kind with
  | int =>
    simp only [literalInstr, instrOf] at h
    split at h <;> cases h
    exact .of_op (by rintro _ ⟨⟩) rfl
  | decimal | exponent =>
    have number : Token.NumberText raw := numberText_of_literal pair (by decide) text
    simp only [literalInstr, instrOf] at h
    split at h <;> cases h
    next read =>
      rw [Binary64.ofText_number number] at read
      exact ⟨Opcode.mem_all (by rintro _ ⟨⟩), Binary64.eq_zero_of_isZero (Binary64.readUnsigned_positive read)⟩
  | bool =>
    cases h
    exact .of_op (by rintro _ ⟨⟩) rfl
  | char =>
    simp only [literalInstr, instrOf] at h
    split at h
    · cases h
    split at h <;> cases h
    exact .of_op (by rintro _ ⟨⟩) rfl
  | string =>
    simp only [literalInstr, instrOf] at h
    cases decoded : unescape raw span with
    | error bad => rw [decoded] at h; cases h
    | ok s =>
      rw [decoded] at h
      cases h
      exact .of_op (by rintro _ ⟨⟩) rfl

theorem lowerLiteral_proper {src : Bytes} {l : PlacedLiteral} (h : Grammar.FromToken (tokenize src) l) :
    (lowerLiteral (.known l.kind) l.raw l.span).Proper := by
  obtain ⟨tok, mem, pair, text, span⟩ := h
  have written := Token.literalText_of_mem_tokenize mem
  rw [← text] at written
  rw [lowerLiteral_eq]
  unfold Lowered.ofInstr
  split
  · next done => exact Lowered.proper_emit (literalInstr_proper pair written done) _
  · exact Lowered.proper_fault _

end Lower

/-! ## Statements -/

namespace Ast
open Lower Machine

section
variable (scope : Scope)

theorem Name.lower_proper (n : Name) : (n.lower scope).Proper := by
  cases n with
  | ident text span =>
    rw [Name.lower]
    split
    · exact .emit (by rintro _ ⟨⟩) rfl
    · exact Lowered.proper_fault _
  | placeholder span => exact Lowered.proper_fault _

mutual

/-- If the literals of an expression are lowered to instructions that exist, so is the expression. -/
theorem Expr.lower_proper : ∀ e : Expr,
    (∀ l ∈ e.literals, (lowerLiteral (.known l.kind) l.raw l.span).Proper) → (e.lower scope).Proper
  | .literal kind raw span, h => by
    rw [Expr.lower]
    exact h ⟨kind, raw, span⟩ (by simp [Expr.literals])
  | .name n, _ => by
    rw [Expr.lower]
    exact n.lower_proper scope
  | .path segments, _ => by
    rw [Expr.lower]
    exact Lowered.proper_fault _
  | .tuple elements span, h => by
    rw [Expr.lower]
    rw [Expr.literals] at h
    exact (Expr.lowerAll_proper elements h).andThen (.emit (by rintro _ ⟨⟩) rfl)
  | .unary op operand span, h => by
    rw [Expr.lower]
    rw [Expr.literals] at h
    split
    · exact .emit (by rintro _ ⟨⟩) rfl
    · exact (Expr.lower_proper operand h).andThen (.emit (by rintro _ ⟨⟩) rfl)
  | .binary op left right span, h => by
    rw [Expr.lower]
    rw [Expr.literals] at h
    have first := Expr.lower_proper left fun l hl => h l (List.mem_append_left _ hl)
    have second := Expr.lower_proper right fun l hl => h l (List.mem_append_right _ hl)
    exact (first.andThen second).andThen (.emit (by rintro _ ⟨⟩) rfl)

theorem Expr.lowerAll_proper : ∀ es : List Expr,
    (∀ l ∈ Expr.allLiterals es, (lowerLiteral (.known l.kind) l.raw l.span).Proper) →
    (Expr.lowerAll scope es).Proper
  | [], _ => by
    rw [Expr.lowerAll]
    exact ⟨fun _ mem => nomatch mem⟩
  | e :: es, h => by
    rw [Expr.lowerAll]
    rw [Expr.allLiterals] at h
    have head := Expr.lower_proper e fun l hl => h l (List.mem_append_left _ hl)
    have tail := Expr.lowerAll_proper es fun l hl => h l (List.mem_append_right _ hl)
    exact head.andThen tail

end

end

section
variable {src : Bytes} {statements : List Statement}
  (parsed : Grammar.parseModule (tokenize src) = .ok statements) {s : Statement} (member : s ∈ statements)
include parsed member

theorem Statement.lower_proper (scope : Scope) : (s.lower scope).lowered.Proper := by
  have value := s.value.lower_proper scope fun l hl =>
    lowerLiteral_proper ((Grammar.parseModule_sound parsed).2 s member l hl)
  cases s with
  | expr value span => exact value.andThen (.emit (by rintro _ ⟨⟩) rfl)
  | letIn n value span => cases n <;> exact value.andThen (.emit (by rintro _ ⟨⟩) rfl)

theorem Statement.lower_code_lt {scope : Scope} {f : Fault} (out : (s.lower scope).lowered.outcome = .fault f) :
    f.code.number < 0x10000 := by
  have ordinary : Ordinary fun o => ∀ f, o = .fault f → f.code.number < 0x10000 :=
    { done := nofun
      undefinedName := by
        rintro span message f ⟨⟩
        exact (by decide : Code.undefinedName.number < 0x10000)
      placeholderValue := by
        rintro span message f ⟨⟩
        exact (by decide : Code.placeholderValue.number < 0x10000)
      unimplemented := by
        rintro span feature f ⟨⟩
        exact (by decide : Code.unsupportedFeature.number < 0x10000) }
  refine s.lower_outcome ordinary scope (fun l hl f out => ?_) f out
  obtain ⟨tok, mem, pair, text, span⟩ := (Grammar.parseModule_sound parsed).2 s member l hl
  have written := Token.literalText_of_mem_tokenize mem
  rw [← text] at written
  rw [lowerLiteral_eq] at out
  unfold Lowered.ofInstr at out
  split at out
  · cases out
  · next failed =>
    cases out
    rcases literalInstr_fault pair written failed with range | escape | ⟨malformed, _⟩
    · rw [range]; decide
    · rw [escape]; decide
    · rw [malformed]; decide

end

end Ast

end LetStack
