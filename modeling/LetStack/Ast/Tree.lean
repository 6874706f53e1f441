import LetStack.Source.Span
import LetStack.Ast.Kinds

/-!
Syntax trees as values: what a parse yields. A module is its statements in order.
-/

namespace LetStack.Ast

/-- An identifier or the placeholder `_`. -/
inductive Name where
  | ident (text : Bytes) (span : Span)
  | placeholder (span : Span)
  deriving DecidableEq, Repr, Inhabited

def Name.span : Name → Span
  | ident _ s => s
  | placeholder s => s

inductive Expr where
  /-- A literal with its text as written. -/
  | literal (kind : LiteralKind) (raw : Bytes) (span : Span)
  | name (name : Name)
  /-- Two or more names with dots between them. -/
  | path (segments : List Name)
  | tuple (elements : List Expr) (span : Span)
  | unary (op : Operator) (operand : Expr) (span : Span)
  | binary (op : Operator) (left right : Expr) (span : Span)
  deriving Repr, Inhabited

def Expr.span : Expr → Span
  | literal _ _ s => s
  | name n => n.span
  | path segments => Span.joinAll (segments.map Name.span)
  | tuple _ s => s
  | unary _ _ s => s
  | binary _ _ _ s => s

inductive Statement where
  | expr (value : Expr) (span : Span)
  | letIn (name : Name) (value : Expr) (span : Span)
  deriving Repr, Inhabited

def Statement.span : Statement → Span
  | expr _ s => s
  | letIn _ _ s => s

end LetStack.Ast
