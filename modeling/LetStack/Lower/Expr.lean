import LetStack.Lower.Literal
import LetStack.Text.Nfc

/-!
Lowering expressions: operands from left to right, then the operator. Names are compared in
normalization form C. The first part that fails stops the whole expression.
-/

namespace LetStack.Lower
open Ast Machine

/-- The names bound so far, normalized. -/
abbrev Scope := List Bytes

namespace Scope

def isBoundBy (key : Bytes → Bytes) (s : Scope) (name : Bytes) : Bool := s.contains (key name)

/-- Binds a name in the form in which `key` compares names, once. -/
def bindBy (key : Bytes → Bytes) (s : Scope) (name : Bytes) : Scope :=
  if s.isBoundBy key name then s else s ++ [key name]

/-- The form in which names are compared. -/
def key (name : Bytes) : Bytes := Text.nfc name

def isBound : Scope → Bytes → Bool := isBoundBy key

def bind : Scope → Bytes → Scope := bindBy key

end Scope

/-- Whether an expression is the integer literal 2^63. -/
def minIntOperand (b : Builder) (id : ExprId) : Except Defect Bool :=
  match b.expr? id with
  | none => .ok false
  | some e =>
    if e.kind = .known .literal then
      match Builder.payload b.literals e with
      | .error d => .error d
      | .ok data => if data.kind = .known .int then (b.text data.raw).map isMinMagnitude else .ok false
    else .ok false

def lowerName (b : Builder) (scope : Scope) (name : NameEntry) (span : Span) : Lowered :=
  match name.kind with
  | .known .placeholder => .fault (.user .placeholderValue span "`_` cannot be used as a value")
  | .known .ident =>
    .ofData (b.nameText name) fun text =>
      if scope.isBound text then .emit { op := .load, str := Scope.key text } span
      else .fault (.user .undefinedName span ("cannot find `" ++ text ++ "` in this scope"))
  | .unknown _ => .fault (.internal span ("unknown name kind " ++ name.kind.nameName))

/-- An expression nested less than `depth` deep. -/
def lowerExpr (b : Builder) (scope : Scope) : Nat → ExprId → Lowered
  | 0, _ => .broken .cyclic
  | depth + 1, id =>
    match b.expr? id with
    | none => .fault (.internal .empty ("expression " ++ Bytes.ofNat id ++ " does not exist"))
    | some e =>
      match e.kind with
      | .known .literal =>
        .ofData (Builder.payload b.literals e) fun data =>
          .ofData (b.text data.raw) fun raw => lowerLiteral data.kind raw e.span
      | .known .tuple =>
        .ofData (Builder.payload b.tuples e) fun elements =>
          (Lowered.all (elements.map (lowerExpr b scope depth))).andThen
            (.emit { op := .tuple, count := UInt32.ofNat elements.length } e.span)
      | .known .operator =>
        .ofData (Builder.payload b.operators e) fun data =>
          .ofData (if data.op = .known .neg then minIntOperand b data.right else .ok false) fun isMin =>
            if isMin then .emit { op := .pushInt, int := Int64.minValue } e.span
            else if data.op.isUnary then
              (lowerExpr b scope depth data.right).andThen
                (.emit { op := .unary, str := data.op.mnemonic } e.span)
            else
              ((lowerExpr b scope depth data.left).andThen (lowerExpr b scope depth data.right)).andThen
                (.emit { op := .binary, str := data.op.mnemonic } e.span)
      | .known .name =>
        .ofData (Builder.payload b.names e) fun name => lowerName b scope name e.span
      | .known .matchOf => .fault (.unimplemented e.span "match")
      | .known .closure => .fault (.unimplemented e.span "closure")
      | .known .path => .fault (.unimplemented e.span "path")
      | .known .array => .fault (.unimplemented e.span "array")
      | .known .init => .fault (.unimplemented e.span "struct/union init")
      | .known .ifElse => .fault (.unimplemented e.span "if")
      | .unknown _ => .fault (.internal e.span ("unknown expression kind " ++ e.kind.exprName))

end LetStack.Lower
