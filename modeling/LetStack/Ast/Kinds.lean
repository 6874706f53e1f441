import LetStack.Text.Bytes

/-!
The vocabulary of syntax trees: what kinds of nodes, statements, expressions, names, literals and
operators there are, and what they are called. A tree put together by hand may carry a number that
stands for none of them; `Tag` keeps it.
-/

namespace LetStack.Ast

/-- A member of a vocabulary, or a number that stands for no member. -/
inductive Tag (α : Type) where
  | known (a : α)
  | unknown (number : Nat)
  deriving DecidableEq, Repr, Inhabited

namespace Tag

/-- The member with a number, members counted from 0 in the order listed. -/
def ofNat {α : Type} (members : List α) (n : Nat) : Tag α :=
  match members[n]? with
  | some a => known a
  | none => unknown n

/-- The name of a member, `other` for an unknown number. -/
def nameOr {α : Type} (other : String) (name : α → String) : Tag α → String
  | known a => name a
  | unknown _ => other

end Tag

inductive LiteralKind where
  | char | string | int | decimal | exponent | bool
  deriving DecidableEq, Repr, Inhabited

namespace LiteralKind

def all : List LiteralKind := [char, string, int, decimal, exponent, bool]

def name : LiteralKind → String
  | char => "char"
  | string => "string"
  | int => "int"
  | decimal => "decimal"
  | exponent => "exponent"
  | bool => "bool"

end LiteralKind

inductive Operator where
  | neg | not
  | add | sub | mul | div | mod
  | eq | ne | lt | le | gt | ge
  | and | or
  | range | rangeInclusive
  deriving DecidableEq, Repr, Inhabited

namespace Operator

def all : List Operator :=
  [neg, not, add, sub, mul, div, mod, eq, ne, lt, le, gt, ge, and, or, range, rangeInclusive]

/-- The operator as it is written. -/
def symbol : Operator → String
  | neg => "-"
  | not => "!"
  | add => "+"
  | sub => "-"
  | mul => "*"
  | div => "/"
  | mod => "%"
  | eq => "=="
  | ne => "!="
  | lt => "<"
  | le => "<="
  | gt => ">"
  | ge => ">="
  | and => "&&"
  | or => "||"
  | range => ".."
  | rangeInclusive => "..="

/-- The operator as the stack machine names it. -/
def mnemonic : Operator → String
  | neg => "neg"
  | not => "not"
  | add => "add"
  | sub => "sub"
  | mul => "mul"
  | div => "div"
  | mod => "mod"
  | eq => "eq"
  | ne => "ne"
  | lt => "lt"
  | le => "le"
  | gt => "gt"
  | ge => "ge"
  | and => "and"
  | or => "or"
  | range => "range"
  | rangeInclusive => "range_incl"

def isUnary : Operator → Bool
  | neg | not => true
  | _ => false

end Operator

inductive ExprKind where
  | matchOf | closure | literal | path | array | tuple | init | operator | name | ifElse
  deriving DecidableEq, Repr, Inhabited

namespace ExprKind

def all : List ExprKind :=
  [matchOf, closure, literal, path, array, tuple, init, operator, name, ifElse]

def label : ExprKind → String
  | matchOf => "Match"
  | closure => "Closure"
  | literal => "Literal"
  | path => "Path"
  | array => "Array"
  | tuple => "Tuple"
  | init => "Init"
  | operator => "Operator"
  | name => "Name"
  | ifElse => "If"

/-- Whether expressions of this kind carry data of their own; the others have no form yet. -/
def hasPayload : ExprKind → Bool
  | literal | path | tuple | operator | name => true
  | _ => false

end ExprKind

inductive StatementKind where
  | expr | letIn
  deriving DecidableEq, Repr, Inhabited

namespace StatementKind

def all : List StatementKind := [expr, letIn]

def label : StatementKind → String
  | expr => "Expr"
  | letIn => "Let"

end StatementKind

inductive NodeKind where
  | directive | statement
  deriving DecidableEq, Repr, Inhabited

namespace NodeKind

def all : List NodeKind := [directive, statement]

def label : NodeKind → String
  | directive => "Directive"
  | statement => "Statement"

end NodeKind

inductive NameKind where
  | ident | placeholder
  deriving DecidableEq, Repr, Inhabited

namespace NameKind

def all : List NameKind := [ident, placeholder]

def label : NameKind → String
  | ident => "Ident"
  | placeholder => "Placeholder"

end NameKind

/-! ## Names of tags -/

namespace Tag

def literalName : Tag LiteralKind → String := nameOr "LitKind(?)" LiteralKind.name
def exprName : Tag ExprKind → String := nameOr "ExprKind(?)" ExprKind.label
def statementName : Tag StatementKind → String := nameOr "StmtKind(?)" StatementKind.label
def nodeName : Tag NodeKind → String := nameOr "NodeKind(?)" NodeKind.label
def nameName : Tag NameKind → String := nameOr "NameKind(?)" NameKind.label
def mnemonic : Tag Operator → String := nameOr "Op(?)" Operator.mnemonic
def symbol : Tag Operator → String := nameOr "?" Operator.symbol

def isUnary : Tag Operator → Bool
  | known op => op.isUnary
  | unknown _ => false

def hasPayload : Tag ExprKind → Bool
  | known k => k.hasPayload
  | unknown _ => false

end Tag

end LetStack.Ast
