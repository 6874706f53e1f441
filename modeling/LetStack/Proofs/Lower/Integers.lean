import Mathlib.Data.Nat.Digits.Defs
import LetStack.Proofs.Grammar.Agreement
import LetStack.Proofs.Grammar.Awaiting
import LetStack.Proofs.Lower.Decoding
import LetStack.Proofs.Lower.Tree

/-!
An integer literal pushes the value of its digits if that is below 2^63, and is out of range otherwise
(`lowerLiteral_integer`). As the operand of a minus sign 2^63 is taken too, as one instruction with the sign
(`integer_literals_exact`).
-/

namespace LetStack

/-! ## Values of digits -/

/-- The place of a digit among all digits, capital letters counting as small ones. -/
def digitOf (b : UInt8) : Nat := (Bytes.ofString "0123456789abcdef").idxOf (Bytes.lowerByte b)

/-- The number that digits stand for in a base, the last one counting least. -/
def valueOf (base : Nat) (ds : Bytes) : Nat := Nat.ofDigits base (ds.reverse.map digitOf)

namespace Integer

theorem digitOf_eq {b : UInt8} {d : Nat} (value : digitValue? b = some d) (small : d < 16) : digitOf b = d := by
  have all : ∀ n < 256, ∀ d < 16, digitValue? (UInt8.ofNat n) = some d → digitOf (UInt8.ofNat n) = d := by
    decide +kernel
  have same := all b.toNat b.toNat_lt d small
  rw [UInt8.ofNat_toNat] at same
  exact same value

theorem ofDigits_lead (base : Nat) (l : List Nat) (d n : Nat) :
    Nat.ofDigits base (l ++ [d, n]) = Nat.ofDigits base (l ++ [n * base + d]) := by
  induction l with
  | nil => simp [Nat.ofDigits_cons, Nat.mul_comm, Nat.add_comm]
  | cons c l ih => rw [List.cons_append, List.cons_append, Nat.ofDigits_cons, Nat.ofDigits_cons, ih]

theorem le_ofDigits {base : Nat} (positive : 0 < base) (l : List Nat) (n : Nat) : n ≤ Nat.ofDigits base (l ++ [n]) := by
  induction l with
  | nil => simp [Nat.ofDigits_cons]
  | cons c l ih =>
    rw [List.cons_append, Nat.ofDigits_cons]
    calc n ≤ Nat.ofDigits base (l ++ [n]) := ih
      _ ≤ base * Nat.ofDigits base (l ++ [n]) := Nat.le_mul_of_pos_left _ positive
      _ ≤ c + base * Nat.ofDigits base (l ++ [n]) := Nat.le_add_left _ _

/-- Digits behind those with the value `n` are read exactly, unless the whole exceeds 64 bits. -/
theorem readDigits_eq {base : Nat} (least : 0 < base) (greatest : base ≤ 16) {ds : Bytes}
    (digits : ∀ b ∈ ds, IsDigitOf base b) {n : Nat} (fits : n < 0x10000000000000000) :
    readDigits base n ds =
      if Nat.ofDigits base (ds.reverse.map digitOf ++ [n]) < 0x10000000000000000 then
        .ok (Nat.ofDigits base (ds.reverse.map digitOf ++ [n]))
      else .error .outOfRange := by
  induction ds generalizing n with
  | nil =>
    have single : Nat.ofDigits base (([] : Bytes).reverse.map digitOf ++ [n]) = n := Nat.ofDigits_singleton
    rw [single, if_pos fits]
    rfl
  | cons b ds ih =>
    obtain ⟨⟨d, small, value⟩, others⟩ := List.forall_mem_cons.1 digits
    have lead : Nat.ofDigits base ((b :: ds).reverse.map digitOf ++ [n]) =
        Nat.ofDigits base (ds.reverse.map digitOf ++ [n * base + d]) := by
      rw [← ofDigits_lead, List.reverse_cons, List.map_append, List.append_assoc, List.map_singleton,
        digitOf_eq value (Nat.lt_of_lt_of_le small greatest)]
      rfl
    rw [lead, readDigits, value]
    simp only [if_neg (Nat.not_le.2 small)]
    split
    · next exceeds =>
      -- more digits do not make less of it
      have whole := le_ofDigits least (ds.reverse.map digitOf) (n * base + d)
      rw [if_neg (Nat.not_lt.2 (Nat.le_trans exceeds whole))]
    · next below => exact ih others (Nat.not_le.1 below)

theorem readUnsigned_eq {base : Nat} (least : 0 < base) (greatest : base ≤ 16) {ds : Bytes} (some : ds ≠ [])
    (digits : ∀ b ∈ ds, IsDigitOf base b) :
    readUnsigned ds base =
      if valueOf base ds < 0x10000000000000000 then .ok (valueOf base ds) else .error .outOfRange := by
  rw [readUnsigned, if_neg some, readDigits_eq least greatest digits (by decide), Nat.ofDigits_append_zero]
  rfl

end Integer

theorem Token.IntegerText.base_range {t ds : Bytes} {base : Nat} (h : IntegerText t base ds) :
    0 < base ∧ base ≤ 16 := by
  cases h <;> decide

namespace Lower
open Ast Machine Token

section Literal
variable {t ds : Bytes} {base : Nat} (text : IntegerText t base ds)
include text

theorem readUnsigned_integer :
    Integer.readUnsigned (intDigits t).1 (intDigits t).2 =
      if valueOf base ds < 0x10000000000000000 then .ok (valueOf base ds) else .error .outOfRange := by
  obtain ⟨some, digits⟩ := text.digits
  rw [text.intDigits_eq]
  exact Integer.readUnsigned_eq text.base_range.1 text.base_range.2 some digits

theorem isMinMagnitude_iff : isMinMagnitude t = true ↔ valueOf base ds = 0x8000000000000000 := by
  rw [isMinMagnitude, readUnsigned_integer text]
  split
  · next read =>
    split at read
    · cases read
      exact decide_eq_true_iff
    · cases read
  · next read =>
    split at read
    · cases read
    · simp only [Bool.false_eq_true, false_iff]
      omega

/-- The fault of an integer literal that does not fit. -/
def outOfRange (t : Bytes) (span : Span) : Fault :=
  .user .literalOutOfRange span ("integer literal `" ++ t ++ "` does not fit in 64 bits")

/-- A literal below 2^63 pushes its value, and any other one is out of range. -/
theorem lowerLiteral_integer (span : Span) :
    (valueOf base ds < 0x8000000000000000 → ∃ n : Int64, n.toInt = valueOf base ds ∧
      lowerLiteral (.known .int) t span = .emit { op := .pushInt, int := n } span) ∧
    (0x8000000000000000 ≤ valueOf base ds → lowerLiteral (.known .int) t span = .fault (outOfRange t span)) := by
  obtain ⟨some, digits⟩ := text.digits
  have signed := Integer.readSigned_digits some digits
  have unsigned := readUnsigned_integer text
  rw [text.intDigits_eq] at unsigned
  rw [unsigned] at signed
  constructor
  · intro fits
    rw [if_pos (by omega)] at signed
    simp only [if_pos fits] at signed
    refine ⟨Int64.ofInt (valueOf base ds), Int64.toInt_ofInt_of_le (by omega) (by omega), ?_⟩
    rw [lowerLiteral_eq, literalInstr, instrOf, text.intDigits_eq, signed]
    rfl
  · intro exceeds
    have refused : Integer.readSigned ds base = .error .outOfRange := by
      rcases Nat.lt_or_ge (valueOf base ds) 0x10000000000000000 with below | above
      · rw [if_pos below] at signed
        simpa only [if_neg (Nat.not_lt.2 exceeds)] using signed
      · rwa [if_neg (Nat.not_lt.2 above)] at signed
    rw [lowerLiteral_eq, literalInstr, instrOf, text.intDigits_eq, refused]
    rfl

end Literal

/-! ## Expressions -/

/-- An expression that is an integer literal, with its text and its place. -/
def IsInteger (b : Builder) (id : ExprId) (t : Bytes) (span : Span) : Prop :=
  ∃ e data, b.expr? id = some e ∧ e.kind = .known .literal ∧ Builder.payload b.literals e = .ok data ∧
    data.kind = .known .int ∧ b.text data.raw = .ok t ∧ e.span = span

/-- An expression that is an operator, with what it holds. -/
def IsOperator (b : Builder) (id : ExprId) (data : OperatorEntry) (span : Span) : Prop :=
  ∃ e, b.expr? id = some e ∧ e.kind = .known .operator ∧ Builder.payload b.operators e = .ok data ∧ e.span = span

def IsTuple (b : Builder) (id : ExprId) (elements : List ExprId) : Prop :=
  ∃ e, b.expr? id = some e ∧ e.kind = .known .tuple ∧ Builder.payload b.tuples e = .ok elements

/-- A literal that is an expression or a part of it, but not there as the operand of a minus sign. -/
inductive Bare (b : Builder) (lit : ExprId) : ExprId → Prop
  | itself : Bare b lit lit
  | element {id x : ExprId} {elements : List ExprId} : IsTuple b id elements → x ∈ elements → Bare b lit x →
      Bare b lit id
  | left {id : ExprId} {data : OperatorEntry} {span : Span} : IsOperator b id data span → data.op.isUnary = false →
      Bare b lit data.left → Bare b lit id
  | right {id : ExprId} {data : OperatorEntry} {span : Span} : IsOperator b id data span →
      (data.op = .known .neg → data.right ≠ lit) → Bare b lit data.right → Bare b lit id

variable {t : Bytes} {b : Builder} {scope : Scope}

theorem IsInteger.of_holds {id : ExprId} {span : Span} (h : b.Holds (.literal .int t span) id) :
    IsInteger b id t span := by
  obtain ⟨payload, raw, found, entry, same⟩ := h
  exact ⟨_, _, found, rfl, by rw [Builder.payload, entry], rfl, Builder.text_eq_ok same, rfl⟩

theorem IsInteger.lowerExpr_eq {id : ExprId} {span : Span} (h : IsInteger b id t span) (scope : Scope) (depth : Nat) :
    lowerExpr b scope (depth + 1) id = lowerLiteral (.known .int) t span := by
  obtain ⟨e, data, found, kind, entry, int, raw, rfl⟩ := h
  rw [lowerExpr, found]
  simp only [kind, entry, Lowered.ofData, int, raw]

theorem IsInteger.minIntOperand_eq {id : ExprId} {span : Span} (h : IsInteger b id t span) :
    minIntOperand b id = .ok (isMinMagnitude t) := by
  obtain ⟨e, data, found, kind, entry, int, raw, rfl⟩ := h
  rw [minIntOperand, found]
  simp only [if_pos kind, entry, if_pos int, raw]
  rfl

theorem literal_of_minIntOperand {id : ExprId} (h : minIntOperand b id = .ok true) :
    ∃ e, b.expr? id = some e ∧ e.kind = .known .literal := by
  unfold minIntOperand at h
  split at h
  · cases h
  · next e found =>
    split at h
    · next kind => exact ⟨e, found, kind⟩
    · cases h

/-- How an operator is lowered: the literal 2^63 behind a minus sign at once, anything else by its operands. -/
theorem IsOperator.lowerExpr_eq {id : ExprId} {data : OperatorEntry} {span : Span} (h : IsOperator b id data span)
    (scope : Scope) (depth : Nat) :
    lowerExpr b scope (depth + 1) id =
      .ofData (if data.op = .known .neg then minIntOperand b data.right else .ok false) fun isMin =>
        if isMin then .emit { op := .pushInt, int := Int64.minValue } span
        else if data.op.isUnary then
          (lowerExpr b scope depth data.right).andThen (.emit { op := .unary, str := data.op.mnemonic } span)
        else
          ((lowerExpr b scope depth data.left).andThen (lowerExpr b scope depth data.right)).andThen
            (.emit { op := .binary, str := data.op.mnemonic } span) := by
  obtain ⟨e, found, kind, entry, rfl⟩ := h
  rw [lowerExpr, found]
  simp only [kind, entry, Lowered.ofData]

theorem Lowered.done_of_all {parts : List Lowered} (h : (Lowered.all parts).outcome = .done) :
    ∀ part ∈ parts, part.outcome = .done := by
  induction parts with
  | nil => exact fun _ member => absurd member List.not_mem_nil
  | cons first rest ih =>
    obtain ⟨done, others⟩ := Lowered.andThen_eq_done.1 h
    exact List.forall_mem_cons.2 ⟨done, ih others⟩

theorem IsTuple.done_of_element {id x : ExprId} {elements : List ExprId} (h : IsTuple b id elements)
    (member : x ∈ elements) {depth : Nat} (done : (lowerExpr b scope (depth + 1) id).outcome = .done) :
    (lowerExpr b scope depth x).outcome = .done := by
  obtain ⟨e, found, kind, entry⟩ := h
  rw [lowerExpr, found] at done
  simp only [kind, entry, Lowered.ofData] at done
  exact Lowered.done_of_all (Lowered.andThen_eq_done.1 done).1 _ (List.mem_map_of_mem member)

theorem IsOperator.done_of_operand {id : ExprId} {data : OperatorEntry} {span : Span} (h : IsOperator b id data span)
    {depth : Nat} (done : (lowerExpr b scope (depth + 1) id).outcome = .done) :
    (data.op = .known .neg ∧ minIntOperand b data.right = .ok true) ∨
      (lowerExpr b scope depth data.right).outcome = .done ∧
        (data.op.isUnary = false → (lowerExpr b scope depth data.left).outcome = .done) := by
  rw [h.lowerExpr_eq] at done
  cases operand : (if data.op = .known .neg then minIntOperand b data.right else .ok false) with
  | error d =>
    rw [operand] at done
    cases done
  | ok isMin =>
    rw [operand] at done
    cases isMin with
    | true =>
      split at operand
      · next neg => exact .inl ⟨neg, operand⟩
      · cases operand
    | false =>
      have done : (if data.op.isUnary then
          (lowerExpr b scope depth data.right).andThen (.emit { op := .unary, str := data.op.mnemonic } span)
        else ((lowerExpr b scope depth data.left).andThen (lowerExpr b scope depth data.right)).andThen
          (.emit { op := .binary, str := data.op.mnemonic } span)).outcome = .done := done
      split at done
      · next unary =>
        refine .inr ⟨(Lowered.andThen_eq_done.1 done).1, fun binary => ?_⟩
        rw [unary] at binary
        cases binary
      · obtain ⟨left, right⟩ := Lowered.andThen_eq_done.1 (Lowered.andThen_eq_done.1 done).1
        exact .inr ⟨right, fun _ => left⟩

theorem Bare.eq_of_literal {lit id : ExprId} (h : Bare b lit id) {e : ExprEntry} (found : b.expr? id = some e)
    (kind : e.kind = .known .literal) : id = lit := by
  have other {e' : ExprEntry} (found' : b.expr? id = some e') {k : ExprKind} (kind' : e'.kind = .known k)
      (different : k ≠ .literal) : False := by
    rw [found] at found'
    cases found'
    rw [kind] at kind'
    cases kind'
    exact different rfl
  cases h with
  | itself => rfl
  | element tuple _ _ =>
    obtain ⟨e', found', kind', _⟩ := tuple
    exact (other found' kind' (by decide)).elim
  | left operator _ _ | right operator _ _ =>
    obtain ⟨e', found', kind', _⟩ := operator
    exact (other found' kind' (by decide)).elim

/-- An expression is not lowered if a literal in it is not, unless this is the operand of a minus sign. -/
theorem Bare.not_done {lit id : ExprId} (h : Bare b lit id)
    (refused : ∀ depth, (lowerExpr b scope depth lit).outcome ≠ .done) (depth : Nat) :
    (lowerExpr b scope depth id).outcome ≠ .done := by
  induction h generalizing depth with
  | itself => exact refused depth
  | element tuple member _ ih =>
    cases depth with
    | zero => exact Outcome.noConfusion
    | succ depth => exact fun done => ih depth (tuple.done_of_element member done)
  | left operator binary _ ih =>
    cases depth with
    | zero => exact Outcome.noConfusion
    | succ depth =>
      intro done
      rcases operator.done_of_operand done with ⟨neg, _⟩ | ⟨_, left⟩
      · rw [neg] at binary
        cases binary
      · exact ih depth (left binary)
  | right operator other inner ih =>
    cases depth with
    | zero => exact Outcome.noConfusion
    | succ depth =>
      intro done
      rcases operator.done_of_operand done with ⟨neg, isMin⟩ | ⟨right, _⟩
      · -- the operand is a literal then, and so the one that stands in it
        obtain ⟨e, found, kind⟩ := literal_of_minIntOperand isMin
        exact other neg (inner.eq_of_literal found kind)
      · exact ih depth right

theorem lowerStmt_not_done {id : StmtId} {s : StmtEntry} (found : b.stmt? id = some s)
    (refused : (lowerExpr b scope b.depthBound s.expr).outcome ≠ .done) :
    (lowerStmt b scope id).lowered.outcome ≠ .done := by
  have behind (next : Lowered) : ((lowerExpr b scope b.depthBound s.expr).andThen next).outcome ≠ .done :=
    fun done => refused (Lowered.andThen_eq_done.1 done).1
  rw [lowerStmt, found]
  dsimp only
  split
  · exact behind _
  · split
    · exact behind _
    · split
      · exact behind _
      · exact behind _
  · exact Outcome.noConfusion

end Lower

/-! ## Parentheses -/

namespace Grammar
open Ast Lower Machine

/-- A token in any number of parentheses. -/
inductive InParens (tok : Token) : List Token → Prop
  | bare : InParens tok [tok]
  | parens {opening closing : Token} {w : List Token} : opening.kind = .lParen → InParens tok w →
      closing.kind = .rParen → InParens tok (opening :: (w ++ [closing]))

section
variable {minus semicolon tok : Token} {w : List Token} (sign : minus.kind = .minus)
  (ended : semicolon.kind = .semicolon) (int : tok.kind = .intLit) (grouped : InParens tok w)
include int grouped

theorem InParens.derives : Derives (.expr .primary (.literal .int tok.text)) w := by
  induction grouped with
  | bare => exact .literal (by rw [int]; decide)
  | parens opens _ closes ih => exact .group opens (Derives.noPrefix ih).loosest closes

include sign

theorem InParens.derives_neg : Derives (.expr .prefixed (.unary .neg (.literal .int tok.text))) (minus :: w) :=
  .prefixed (by rw [sign]; decide) (.noPrefix (grouped.derives int))

include ended

theorem InParens.derives_neg_iff (f : ExprForm) :
    Derives (.expr .prefixed f) (minus :: w) ↔ f = .unary .neg (.literal .int tok.text) := by
  have module {f : ExprForm} (h : Derives (.expr .prefixed f) (minus :: w)) :
      Derives (.module [.expr f]) (minus :: w ++ [semicolon] ++ []) :=
    .statements (.exprStatement h.loosest ended) .noStatement
  constructor
  · intro h
    have same := (module h).module_unique (module (grouped.derives_neg sign int))
    cases same
    rfl
  · rintro rfl
    exact grouped.derives_neg sign int

theorem InParens.parsed_neg : ∃ place inner outer, parseModule (minus :: (w ++ [semicolon])) =
    .ok [.expr (.unary .neg (.literal .int tok.text inner) place) outer] := by
  have derived : Derives (.module [.expr (.unary .neg (.literal .int tok.text))]) (minus :: w ++ [semicolon] ++ []) :=
    .statements (.exprStatement (grouped.derives_neg sign int).loosest ended) .noStatement
  rw [List.append_nil, List.cons_append] at derived
  obtain ⟨statements, parsed, forms⟩ := parseModule_complete derived
  obtain ⟨s, rfl, form⟩ := List.map_eq_singleton_iff.1 forms
  -- the form leaves nothing open but the places
  cases s with
  | letIn _ _ _ => cases form
  | expr value outer =>
    cases value with
    | unary op operand place =>
      cases operand with
      | literal kind raw inner =>
        cases form
        exact ⟨place, inner, outer, parsed⟩
      | _ => cases form
    | _ => cases form

end

end Grammar

namespace Lower
open Ast Machine Token Grammar

theorem walkModule_single (opts : Options) {b : Builder} (c : Context) {toks : List Token} {s : Statement}
    (parsed : parseModule toks = .ok [s]) {id : ModuleId} {m : ModuleEntry} (stored : b.StoredModule [s] id m)
    (done : (s.lower c.scope).lowered.outcome = .done) :
    walkModule opts b c id = { context := c.commit (s.lower c.scope), reports := [none] } := by
  obtain ⟨node, nodes, same⟩ := List.map_eq_singleton_iff.1 (stored.lowers parsed)
  have lowered : lowerNode b c.scope node = s.lower c.scope := congrFun same c.scope
  rw [walkModule_eq stored.found, nodes, walkNodes]
  simp only [lowered, done]
  rfl

section
variable {t ds : Bytes} {base : Nat} (text : IntegerText t base ds)
include text

variable {b : Builder}

theorem IsInteger.lower_exact {id : ExprId} {span : Span} (literal : IsInteger b id t span) (scope : Scope)
    (depth : Nat) :
    (valueOf base ds < 0x8000000000000000 → ∃ n : Int64, n.toInt = valueOf base ds ∧
      lowerExpr b scope (depth + 1) id = .emit { op := .pushInt, int := n } span) ∧
    (0x8000000000000000 ≤ valueOf base ds → lowerExpr b scope (depth + 1) id = .fault (outOfRange t span)) ∧
    ∀ f, (lowerExpr b scope (depth + 1) id).outcome = .fault f → f.code ≠ .malformedLiteral := by
  rw [literal.lowerExpr_eq]
  obtain ⟨fits, exceeds⟩ := lowerLiteral_integer text span
  refine ⟨fits, exceeds, fun f fault => ?_⟩
  rcases Nat.lt_or_ge (valueOf base ds) 0x8000000000000000 with below | above
  · obtain ⟨n, _, lowered⟩ := fits below
    rw [lowered] at fault
    cases fault
  · rw [exceeds above] at fault
    cases fault
    show Code.literalOutOfRange ≠ .malformedLiteral
    decide

theorem IsOperator.lower_negated {id : ExprId} {data : OperatorEntry} {span place : Span}
    (operator : IsOperator b id data span) (neg : data.op = .known .neg) (literal : IsInteger b data.right t place)
    (scope : Scope) (depth : Nat) :
    lowerExpr b scope (depth + 1) id =
      if valueOf base ds = 0x8000000000000000 then .emit { op := .pushInt, int := Int64.minValue } span
      else (lowerExpr b scope depth data.right).andThen
        (.emit { op := .unary, str := Operator.neg.mnemonic } span) := by
  rw [operator.lowerExpr_eq, if_pos neg, literal.minIntOperand_eq, neg]
  simp only [Lowered.ofData, isMinMagnitude_iff text]
  rfl

theorem walk_negated (least : valueOf base ds = 0x8000000000000000) (opts : Options) (c : Context) {toks : List Token}
    {inner place outer : Span}
    (parsed : parseModule toks = .ok [.expr (.unary .neg (.literal .int t inner) place) outer]) {id : ModuleId}
    {m : ModuleEntry} (stored : b.StoredModule [.expr (.unary .neg (.literal .int t inner) place) outer] id m) :
    walkModule opts b c id =
      { context := { c with program := c.program.append ([{ op := .pushInt, int := Int64.minValue, line := place.line },
          { op := .pop, line := outer.line }]) }, reports := [none] } := by
  have lowered : Statement.lower c.scope (.expr (.unary .neg (.literal .int t inner) place) outer) =
      ⟨(Lowered.emit { op := .pushInt, int := Int64.minValue } place).andThen (.emit { op := .pop } outer), none⟩ := by
    rw [Statement.lower, Expr.lower, if_pos ⟨rfl, (isMinMagnitude_iff text).2 least⟩]
  rw [walkModule_single opts c parsed stored (by rw [lowered]; rfl), lowered]
  rfl

/-- A literal from 2^63 on keeps what it stands in from being lowered, unless it is the operand of a minus sign. -/
theorem Bare.refused (exceeds : 0x8000000000000000 ≤ valueOf base ds) {lit id : ExprId} {span : Span}
    (literal : IsInteger b lit t span) (bare : Bare b lit id) (scope : Scope) (depth : Nat) :
    (lowerExpr b scope depth id).outcome ≠ .done := by
  refine bare.not_done (fun depth => ?_) depth
  cases depth with
  | zero => exact Outcome.noConfusion
  | succ depth =>
    rw [literal.lowerExpr_eq, (lowerLiteral_integer text span).2 exceeds]
    exact Outcome.noConfusion

end

/-- Every integer literal is taken at its value. Below 2^63 it pushes this value; from there on it is out of range, and
never malformed. Behind a minus sign, in parentheses or not, 2^63 is one instruction that pushes the least integer; any
other operand is lowered by itself. A literal from 2^63 on that stands anywhere else keeps the expression and the
statement around it from being lowered. -/
theorem integer_literals_exact {t ds : Bytes} {base : Nat} (text : IntegerText t base ds) :
    (∀ b id span, IsInteger b id t span → ∀ scope depth,
      (valueOf base ds < 0x8000000000000000 → ∃ n : Int64, n.toInt = valueOf base ds ∧
        lowerExpr b scope (depth + 1) id = .emit { op := .pushInt, int := n } span) ∧
      (0x8000000000000000 ≤ valueOf base ds → lowerExpr b scope (depth + 1) id = .fault (outOfRange t span)) ∧
      ∀ f, (lowerExpr b scope (depth + 1) id).outcome = .fault f → f.code ≠ .malformedLiteral) ∧
    (∀ b id data span place, IsOperator b id data span → data.op = .known .neg → IsInteger b data.right t place →
      ∀ scope depth, lowerExpr b scope (depth + 1) id =
        if valueOf base ds = 0x8000000000000000 then .emit { op := .pushInt, int := Int64.minValue } span
        else (lowerExpr b scope depth data.right).andThen
          (.emit { op := .unary, str := Operator.neg.mnemonic } span)) ∧
    (∀ (minus tok semicolon : Token) (w : List Token), minus.kind = .minus → semicolon.kind = .semicolon →
      tok.kind = .intLit → tok.text = t → InParens tok w →
      (∀ f, Derives (.expr .prefixed f) (minus :: w) ↔ f = .unary .neg (.literal .int t)) ∧
      (valueOf base ds = 0x8000000000000000 → ∀ (opts : Options) (b : Builder) (c : Context),
          let built := buildModule b (minus :: (w ++ [semicolon]))
          ∃ id, built.1 = .ok id ∧
          let walk := walkModule opts built.2 c id
          walk.ending = .finished ∧ walk.reports = [none] ∧ walk.context.bag = c.bag ∧
          ∃ first second, walk.context.program.instrs = c.program.instrs ++
            [{ op := .pushInt, int := Int64.minValue, line := first }, { op := .pop, line := second }])) ∧
    (0x8000000000000000 ≤ valueOf base ds → ∀ b lit span, IsInteger b lit t span → ∀ id, Bare b lit id → ∀ scope,
      (∀ depth, (lowerExpr b scope depth id).outcome ≠ .done) ∧
      ∀ stmt s, b.stmt? stmt = some s → s.expr = id → (lowerStmt b scope stmt).lowered.outcome ≠ .done) := by
  refine ⟨fun b id span literal => literal.lower_exact text,
    fun b id data span place operator neg literal => operator.lower_negated text neg literal, ?_, ?_⟩
  · intro minus tok semicolon w sign ended int same grouped
    subst same
    refine ⟨grouped.derives_neg_iff sign ended int, fun least opts b c => ?_⟩
    obtain ⟨place, inner, outer, parsed⟩ := grouped.parsed_neg sign ended int
    obtain ⟨id, m, built, stored⟩ := buildModule_stored b parsed
    refine ⟨id, built, ?_⟩
    rw [walk_negated text least opts c parsed stored]
    exact ⟨rfl, rfl, rfl, place.line, outer.line, rfl⟩
  · intro exceeds b lit span literal id bare scope
    refine ⟨bare.refused text exceeds literal scope, ?_⟩
    rintro stmt s found rfl
    exact lowerStmt_not_done found (bare.refused text exceeds literal scope _)

/-- The literal 2^63 with the base 16 and two zeros in front: `-(0x008000000000000000);` is two instructions, and the
literal by itself is out of range. -/
theorem least_integer_in_parentheses :
    let ds : Bytes := Bytes.ofString "008000000000000000"
    let t : Bytes := 0x30 :: 0x78 :: ds
    let interned := ({} : Builder).intern t
    let added := interned.2.newLiteral (.known .int) interned.1 {}
    let built := buildModule {} [{ kind := .minus }, { kind := .lParen }, { kind := .intLit, text := t },
      { kind := .rParen }, { kind := .semicolon }]
    IntegerText t 16 ds ∧ valueOf 16 ds = 0x8000000000000000 ∧
    (∃ id, built.1 = .ok id ∧
      ∃ first second, (walkModule {} built.2 {} id).context.program.instrs =
        [{ op := .pushInt, int := Int64.minValue, line := first }, { op := .pop, line := second }]) ∧
    IsInteger added.2 added.1 t {} ∧ lowerExpr added.2 [] 1 added.1 = .fault (outOfRange t {}) := by
  intro ds t interned added built
  have text : IntegerText t 16 ds := .hexadecimal ⟨by decide, List.all_eq_true.1 (by decide)⟩
  have least : valueOf 16 ds = 0x8000000000000000 := by decide +kernel
  have literal : IsInteger added.2 added.1 t {} :=
    .of_holds (Builder.newLiteral_stored (Interner.start.lookup?_intern t) .int {}).holds
  have grouped : InParens { kind := .intLit, text := t }
      [{ kind := .lParen }, { kind := .intLit, text := t }, { kind := .rParen }] :=
    @InParens.parens _ { kind := .lParen } { kind := .rParen } _ rfl .bare rfl
  obtain ⟨alone, _, parenthesized, _⟩ := integer_literals_exact text
  obtain ⟨_, taken⟩ := parenthesized { kind := .minus } _ { kind := .semicolon } _ rfl rfl rfl rfl grouped
  obtain ⟨id, ok, _, _, _, first, second, instrs⟩ := taken least {} {} {}
  exact ⟨text, least, ⟨id, ok, first, second, instrs⟩, literal,
    (alone _ _ {} literal [] 0).2.1 (Nat.le_of_eq least.symm)⟩

end Lower

end LetStack
