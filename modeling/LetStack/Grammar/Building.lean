import LetStack.Ast.Builder
import LetStack.Grammar.Module

/-!
Parsing into a builder. The rules of the grammar once more, now with entries in a builder as their values: each rule
puts in what it has read as soon as it matches, the parts of an expression before the expression itself. What a rule has
put in stays in the builder when the rule, or one around it, fails; then nothing refers to it.
-/

namespace LetStack.Grammar
open Ast

/-- A rule that works on a builder, which it changes also where it fails. -/
def Building (α : Type) := Input → Builder → Except Error (α × Input) × Builder

namespace Building

/-! ## Putting rules together -/

/-- A rule that puts in nothing. -/
def ofRule {α : Type} (r : Rule α) : Building α := fun i b => (r i, b)

/-- The rule, and behind a match `f` with what was read. -/
def map {α β : Type} (r : Building α) (f : Builder → α → β × Builder) : Building β := fun i b =>
  match r i b with
  | (.error e, b) => (.error e, b)
  | (.ok (a, j), b) =>
    let (v, b) := f b a
    (.ok (v, j), b)

/-- The first rule that matches, `best` being the furthest failure of the rules tried before. -/
def firstOf {α : Type} (best : Option Error) : List (Building α) → Building α
  | [] => fun i b => (.error (best.getD (.mismatch i .unexpectedToken [])), b)
  | r :: rules => fun i b =>
    match r i b with
    | (.ok v, b) => (.ok v, b)
    | (.error e, b) =>
      if e.isMismatch then firstOf (some ((best.map (·.furthest e.unwrapped)).getD e.unwrapped)) rules i b
      else (.error e, b)

def alt {α : Type} (rules : List (Building α)) : Building α := firstOf none rules

def pair {α β : Type} (r : Building α) (s : Building β) : Building (α × β) := fun i b =>
  match r i b with
  | (.error e, b) => (.error e, b)
  | (.ok (x, j), b) =>
    match s j b with
    | (.error e, b) => (.error e, b)
    | (.ok (y, k), b) => (.ok ((x, y), k), b)

/-- Both rules, with the value of the second. -/
def preceded {α β : Type} (first : Building α) (r : Building β) : Building β :=
  map (pair first r) fun b v => (v.2, b)

/-- Both rules, with the value of the first. -/
def terminated {α β : Type} (r : Building α) (last : Building β) : Building α :=
  map (pair r last) fun b v => (v.1, b)

/-- The rule as often as it matches; a match that reads nothing ends the repetition. -/
def many {α : Type} (r : Building α) (i : Input) (b : Builder) : Except Error (List α × Input) × Builder :=
  if i.atEnd then (.ok ([], i), b)
  else
    match r i b with
    | (.error e, b) => if e.isMismatch then (.ok ([], i), b) else (.error e, b)
    | (.ok (x, j), b) =>
      if j.left < i.left then
        match many r j b with
        | (.error e, b) => (.error e, b)
        | (.ok (xs, k), b) => (.ok (x :: xs, k), b)
      else (.ok ([], i), b)
termination_by i.left

def many0 {α : Type} (r : Building α) : Building (List α) := many r

def opt {α : Type} (r : Building α) : Building (Option α) := fun i b =>
  match r i b with
  | (.ok (x, j), b) => (.ok (some x, j), b)
  | (.error e, b) => if e.isMismatch then (.ok (none, i), b) else (.error e, b)

def separated {α β : Type} (sep : Building α) (element : Building β) : Building (List β) :=
  map (pair element (many0 (preceded sep element))) fun b v => (v.1 :: v.2, b)

def allConsuming {α : Type} (r : Building α) : Building α := fun i b =>
  match r i b with
  | (.error e, b) => (.error e, b)
  | (.ok (x, j), b) => if j.atEnd then (.ok (x, j), b) else (.error (.here j .trailingInput .trailing), b)

def label {α : Type} (r : Building α) (what : Bytes) (code : Code) : Building α := fun i b =>
  match r i b with
  | (.ok v, b) => (.ok v, b)
  | (.error e, b) =>
    if e.isMismatch ∧ e.pos = i.pos then (.error (.mismatch i code [what]), b) else (.error e, b)

def tag (kind : Token.Kind) : Building Token := ofRule (Rule.tag kind)

def oneOf (kinds : List Token.Kind) : Building Token := ofRule (Rule.oneOf kinds)

/-- Where the trigger matches, the failure that the feature is not supported. -/
def unimplemented {α β : Type} (trigger : Rule α) (feature : Bytes) : Building β :=
  ofRule (Rule.unimplemented trigger feature)

/-! ## Expressions -/

def name : Building NameEntry :=
  alt [map (tag .ident) fun b t => b.addName (.ident t.text t.span),
       map (tag .placeholder) fun b t => b.addName (.placeholder t.span)]

def literal : Building ExprId :=
  map (oneOf [.charLit, .stringLit, .intLit, .decimalLit, .exponentLit, .boolLit]) fun b t =>
    let (raw, b) := b.intern t.text
    b.newLiteral (.known ((literalKind? t.kind).getD .char)) raw t.span

def path : Building ExprId :=
  let segment := preceded (tag .dot) name
  map (pair name (pair segment (many0 segment))) fun b v => b.newPath (v.1 :: v.2.1 :: v.2.2)

/-- A tuple is put in, an expression that only stands in parentheses is there already. -/
def tuple (expr : Building ExprId) : Building ExprId :=
  let elements := opt (pair (separated (tag .comma) expr) (opt (tag .comma)))
  map (pair (tag .lParen) (pair elements (tag .rParen))) fun b v =>
    let span := v.1.span.join v.2.2.span
    match v.2.1 with
    | none => b.newTuple [] span
    | some ([only], none) => (only, b)
    | some (elements, _) => b.newTuple elements span

def primary (expr : Building ExprId) : Building ExprId :=
  alt [literal,
       unimplemented (Rule.tag .kwMatch) "match",
       unimplemented (Rule.tag .kwIf) "if",
       unimplemented (Rule.oneOf [.pipe, .orOr, .kwFn]) "closure",
       unimplemented (Rule.tag .lBracket) "array",
       unimplemented (Rule.terminated (Rule.tag .ident) (Rule.tag .lBrace)) "struct/union init",
       path,
       map name fun b n => b.newName n,
       tuple expr]

/-- Two operands that were put in, joined by the operator of a token. -/
def applyBinary (b : Builder) (left : ExprId) (step : Token × ExprId) : ExprId × Builder :=
  b.newOperator { op := .known ((binaryOperator? step.1.kind).getD .or), left, right := step.2 }
    ((b.exprSpan left).join (b.exprSpan step.2))

/-- Operands one after another joined to what stands on their left. -/
def applyAll (b : Builder) (left : ExprId) : List (Token × ExprId) → ExprId × Builder
  | [] => (left, b)
  | step :: steps =>
    let (id, b) := applyBinary b left step
    applyAll b id steps

def unary (expr : Building ExprId) : Nat → Building ExprId
  | 0 => fun i b => primary expr i b
  | depth + 1 => fun i b =>
    alt [map (pair (oneOf [.minus, .bang]) (unary expr depth)) fun b v =>
           b.newOperator { op := .known ((prefixOperator? v.1.kind).getD .neg), right := v.2 }
             (v.1.span.join (b.exprSpan v.2)),
         primary expr] i b

def leftAssoc (operators : List Token.Kind) (operand : Building ExprId) : Building ExprId :=
  map (pair operand (many0 (pair (oneOf operators) operand))) fun b v => applyAll b v.1 v.2

def rangeOf (operand : Building ExprId) : Building ExprId :=
  map (pair operand (opt (pair (oneOf [.dotDot, .dotDotEq]) operand))) fun b v =>
    match v.2 with
    | none => (v.1, b)
    | some step => applyBinary b v.1 step

def binary (operand : Building ExprId) : Building ExprId :=
  let product := leftAssoc [.percent, .star, .slash] operand
  let sum := leftAssoc [.plus, .minus] product
  let comparison := leftAssoc [.lt, .gt, .eqEq, .bangEq, .ltEq, .gtEq] (rangeOf sum)
  leftAssoc [.orOr] (leftAssoc [.andAnd] comparison)

def exprWithin : Nat → Building ExprId
  | 0 => fun i b => label (alt []) "expression" .expectedExpression i b
  | depth + 1 => fun i b =>
    label (binary (unary (exprWithin depth) (depth + 1))) "expression" .expectedExpression i b

def expr : Building ExprId := fun i b => exprWithin (i.left + 1) i b

/-! ## Statements -/

def letStatement : Building StmtId :=
  map (pair (pair (tag .kwLet) (terminated name (tag .assign))) (pair expr (tag .semicolon))) fun b v =>
    b.newStmt { kind := .known .letIn, span := v.1.1.span.join v.2.2.span, expr := v.2.1, name := v.1.2 }

def exprStatement : Building StmtId :=
  map (pair expr (tag .semicolon)) fun b v =>
    b.newStmt { kind := .known .expr, span := (b.exprSpan v.1).join v.2.span, expr := v.1 }

def node : Building NodeId :=
  alt [unimplemented (Rule.tag .hash) "directive",
       map (alt [letStatement, exprStatement]) fun b stmt =>
         b.newNode { kind := .known .statement, span := b.stmtSpan stmt, stmt }]

end Building

/-! ## Whole texts -/

/-- Puts in the module that all tokens together form. Tokens left over come with the reason why no statement starts
there, for which the rule of statements is tried once more. -/
def buildModule (b : Builder) (toks : List Token) : Except Failure ModuleId × Builder :=
  let start : Input := { tokens := toks.toArray }
  match Building.allConsuming (Building.many0 Building.node) start b with
  | (.ok (nodes, _), b) =>
    let (id, b) := b.newModule (Span.joinAll (nodes.map b.nodeSpan))
    (.ok id, nodes.foldl (fun b n => (b.pushNode id n).2) b)
  | (.error e, b) =>
    match e.reason with
    | .trailing =>
      match Building.node (start.moveTo e.pos) b with
      | (.error cause, b) => (.error { error := e, cause := some cause }, b)
      | (.ok _, b) => (.error { error := e }, b)
    | _ => (.error { error := e }, b)

def buildExpr (b : Builder) (toks : List Token) : Except Failure ExprId × Builder :=
  match Building.allConsuming Building.expr { tokens := toks.toArray } b with
  | (.ok (id, _), b) => (.ok id, b)
  | (.error e, b) => (.error { error := e }, b)

end LetStack.Grammar
