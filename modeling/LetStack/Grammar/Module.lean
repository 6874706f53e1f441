import LetStack.Grammar.Rule
import LetStack.Ast.Tree

/-!
The grammar of modules. From loose to tight: `||`, `&&`, comparisons, ranges (which do not chain),
`+ -`, `* / %`, prefix operators, primary expressions; the binary levels associate to the left.
Forms that are planned but have no grammar yet are recognised by their first tokens.
-/

namespace LetStack.Grammar
open Ast Rule

def name : Rule Name :=
  alt [map (tag .ident) fun t => .ident t.text t.span,
       map (tag .placeholder) fun t => .placeholder t.span]

/-- The kind of literal that a literal token is. -/
def literalKind? : Token.Kind → Option LiteralKind
  | .charLit => some .char
  | .stringLit => some .string
  | .intLit => some .int
  | .decimalLit => some .decimal
  | .exponentLit => some .exponent
  | .boolLit => some .bool
  | _ => none

def literal : Rule Expr :=
  map (oneOf [.charLit, .stringLit, .intLit, .decimalLit, .exponentLit, .boolLit]) fun t =>
    .literal ((literalKind? t.kind).getD .char) t.text t.span

/-- Two or more names with dots between them. -/
def path : Rule Expr :=
  let segment := preceded (tag .dot) name
  map (pair name (pair segment (many0 segment))) fun (first, second, others) =>
    .path (first :: second :: others)

/-- Expressions in parentheses: none, one with a comma behind it, or several make a tuple; one alone
is that expression. -/
def tuple (expr : Rule Expr) : Rule Expr :=
  let elements := opt (pair (separated (tag .comma) expr) (opt (tag .comma)))
  map (pair (tag .lParen) (pair elements (tag .rParen))) fun (opening, found, closing) =>
    let span := opening.span.join closing.span
    match found with
    | none => .tuple [] span
    | some ([only], none) => only
    | some (elements, _) => .tuple elements span

/-- A path is tried before a name, since it starts with one. -/
def primary (expr : Rule Expr) : Rule Expr :=
  alt [literal,
       unimplemented (tag .kwMatch) "match",
       unimplemented (tag .kwIf) "if",
       unimplemented (oneOf [.pipe, .orOr, .kwFn]) "closure",
       unimplemented (tag .lBracket) "array",
       unimplemented (terminated (tag .ident) (tag .lBrace)) "struct/union init",
       path,
       map name .name,
       tuple expr]

/-- The operator that a token is between two operands. -/
def binaryOperator? : Token.Kind → Option Operator
  | .orOr => some .or
  | .andAnd => some .and
  | .eqEq => some .eq
  | .bangEq => some .ne
  | .lt => some .lt
  | .ltEq => some .le
  | .gt => some .gt
  | .gtEq => some .ge
  | .dotDot => some .range
  | .dotDotEq => some .rangeInclusive
  | .plus => some .add
  | .minus => some .sub
  | .star => some .mul
  | .slash => some .div
  | .percent => some .mod
  | _ => none

/-- The operator that a token is in front of an operand. -/
def prefixOperator? : Token.Kind → Option Operator
  | .minus => some .neg
  | .bang => some .not
  | _ => none

/-- Two operands joined by the operator of a token. -/
def applyBinary (left : Expr) (step : Token × Expr) : Expr :=
  .binary ((binaryOperator? step.1.kind).getD .or) left step.2 (left.span.join step.2.span)

/-- Prefix operators before a primary expression, at most `depth` of them. -/
def unary (expr : Rule Expr) : Nat → Rule Expr
  | 0 => fun i => primary expr i
  | depth + 1 => fun i =>
    alt [map (pair (oneOf [.minus, .bang]) (unary expr depth)) fun (op, operand) =>
           .unary ((prefixOperator? op.kind).getD .neg) operand (op.span.join operand.span),
         primary expr] i

/-- Operands with operators between them, grouped from the left. -/
def leftAssoc (operators : List Token.Kind) (operand : Rule Expr) : Rule Expr :=
  map (pair operand (many0 (pair (oneOf operators) operand))) fun (first, steps) =>
    steps.foldl applyBinary first

/-- One operand, or two with a range operator between them. -/
def rangeOf (operand : Rule Expr) : Rule Expr :=
  map (pair operand (opt (pair (oneOf [.dotDot, .dotDotEq]) operand))) fun (first, step) =>
    match step with
    | none => first
    | some step => applyBinary first step

/-- All binary levels over an operand. -/
def binary (operand : Rule Expr) : Rule Expr :=
  let product := leftAssoc [.percent, .star, .slash] operand
  let sum := leftAssoc [.plus, .minus] product
  let comparison := leftAssoc [.lt, .gt, .eqEq, .bangEq, .ltEq, .gtEq] (rangeOf sum)
  leftAssoc [.orOr] (leftAssoc [.andAnd] comparison)

/-- Expressions nested in parentheses fewer than `depth` times, with fewer than `depth` prefix
operators in a row. A depth above the number of tokens left excludes nothing. -/
def exprWithin : Nat → Rule Expr
  | 0 => fun i => label (alt []) "expression" .expectedExpression i
  | depth + 1 => fun i =>
    label (binary (unary (exprWithin depth) (depth + 1))) "expression" .expectedExpression i

def expr : Rule Expr := fun i => exprWithin (i.left + 1) i

/-- `let name = expr ;` -/
def letStatement : Rule Statement :=
  map (pair (pair (tag .kwLet) (terminated name (tag .assign))) (pair expr (tag .semicolon)))
    fun ((start, bound), (value, semicolon)) =>
      .letIn bound value (start.span.join semicolon.span)

/-- `expr ;` -/
def exprStatement : Rule Statement :=
  map (pair expr (tag .semicolon)) fun (value, semicolon) =>
    .expr value (value.span.join semicolon.span)

/-- What a module is a sequence of. -/
def node : Rule Statement :=
  alt [unimplemented (tag .hash) "directive", alt [letStatement, exprStatement]]

/-- The statements of a module. Tokens left over come with the reason why no statement starts
there. -/
def parseModule (toks : List Token) : Except Failure (List Statement) :=
  let start : Input := { tokens := toks.toArray }
  match allConsuming (many0 node) start with
  | .ok (statements, _) => .ok statements
  | .error e =>
    match e.reason, node (start.moveTo e.pos) with
    | .trailing, .error cause => .error { error := e, cause := some cause }
    | _, _ => .error { error := e }

def parseExpr (toks : List Token) : Except Failure Expr :=
  match allConsuming expr { tokens := toks.toArray } with
  | .ok (e, _) => .ok e
  | .error e => .error { error := e }

end LetStack.Grammar
