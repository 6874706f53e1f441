import LetStack.Ast.Arena
import LetStack.Ast.Tree
import LetStack.Source.Interner

/-!
The builder holds trees as numbered entries: modules, nodes, statements, expressions and the data of
expressions lie in arenas of their own, and texts in an interner. Trees can be put together entry by
entry, and then a number may stand for nothing; `Defect` says what happens to a tree that is used
although it is broken.
-/

namespace LetStack.Ast

abbrev ModuleId := Nat
abbrev NodeId := Nat
abbrev StmtId := Nat
abbrev ExprId := Nat
abbrev PayloadId := Nat

/-- An identifier or the placeholder, its text as a number of the interner. -/
structure NameEntry where
  kind : Tag NameKind := .known .ident
  text : StringId := 0
  span : Span := {}
  deriving DecidableEq, Repr, Inhabited

structure LiteralEntry where
  kind : Tag LiteralKind
  raw : StringId
  deriving DecidableEq, Repr, Inhabited

/-- A prefix operator has only a right operand. -/
structure OperatorEntry where
  op : Tag Operator
  left : ExprId := 0
  right : ExprId
  deriving DecidableEq, Repr, Inhabited

structure ExprEntry where
  kind : Tag ExprKind
  span : Span
  payload : PayloadId := 0
  deriving DecidableEq, Repr, Inhabited

structure StmtEntry where
  kind : Tag StatementKind
  span : Span
  expr : ExprId
  name : NameEntry := {}
  deriving DecidableEq, Repr, Inhabited

structure NodeEntry where
  kind : Tag NodeKind
  span : Span
  stmt : StmtId := 0
  directive : StringId := 0
  deriving DecidableEq, Repr, Inhabited

structure ModuleEntry where
  span : Span
  nodes : List NodeId := []
  deriving DecidableEq, Repr, Inhabited

/-- Why a tree put together by hand, or a text in one, cannot be used. -/
inductive Defect where
  /-- A number that stands for nothing was followed. -/
  | missing
  /-- A text number that the interner does not know. -/
  | unknownText
  | notBinary (op : Tag Operator)
  | notUnary (op : Tag Operator)
  | needsPayload (kind : Tag ExprKind)
  /-- An expression that is a part of itself. -/
  | cyclic
  /-- Bytes outside of a text were asked for. -/
  | outOfRange
  deriving DecidableEq, Repr, Inhabited

/-- The words for a defect that is detected; the others have none. -/
def Defect.message? : Defect → Option Bytes
  | missing => none
  | unknownText => some "invalid string ID"
  | notBinary op => some ("ast: " ++ op.mnemonic ++ " is not a binary operator")
  | notUnary op => some ("ast: " ++ op.mnemonic ++ " is not a unary operator")
  | needsPayload kind => some ("ast: " ++ kind.exprName ++ " needs a payload")
  | cyclic => none
  | outOfRange => none

structure Builder where
  strings : Interner := .start
  modules : Arena ModuleEntry := {}
  nodes : Arena NodeEntry := {}
  stmts : Arena StmtEntry := {}
  exprs : Arena ExprEntry := {}
  literals : Arena LiteralEntry := {}
  tuples : Arena (List ExprId) := {}
  paths : Arena (List NameEntry) := {}
  operators : Arena OperatorEntry := {}
  names : Arena NameEntry := {}
  deriving Repr, Inhabited

namespace Builder

/-! ## Reading -/

def module? (b : Builder) (id : ModuleId) : Option ModuleEntry := b.modules.get? id
def node? (b : Builder) (id : NodeId) : Option NodeEntry := b.nodes.get? id
def stmt? (b : Builder) (id : StmtId) : Option StmtEntry := b.stmts.get? id
def expr? (b : Builder) (id : ExprId) : Option ExprEntry := b.exprs.get? id

/-! Where an entry lies; a number of nothing lies nowhere. -/

def nodeSpan (b : Builder) (id : NodeId) : Span := ((b.node? id).map NodeEntry.span).getD {}
def stmtSpan (b : Builder) (id : StmtId) : Span := ((b.stmt? id).map StmtEntry.span).getD {}
def exprSpan (b : Builder) (id : ExprId) : Span := ((b.expr? id).map ExprEntry.span).getD {}

def text (b : Builder) (id : StringId) : Except Defect Bytes :=
  match b.strings.lookup? id with
  | some s => .ok s
  | none => .error .unknownText

/-- The text of a name, `_` for the placeholder. -/
def nameText (b : Builder) (n : NameEntry) : Except Defect Bytes :=
  if n.kind = .known .placeholder then .ok "_" else b.text n.text

/-- The data of an expression, from the arena of its kind. -/
def payload {α : Type} (arena : Arena α) (e : ExprEntry) : Except Defect α :=
  match arena.get? e.payload with
  | some data => .ok data
  | none => .error .missing

/-! ## Writing entries -/

def intern (b : Builder) (s : Bytes) : StringId × Builder :=
  let (id, strings) := b.strings.intern s
  (id, { b with strings })

def newExpr (b : Builder) (kind : Tag ExprKind) (span : Span) (payload : PayloadId) : ExprId × Builder :=
  let (id, exprs) := b.exprs.alloc { kind, span, payload }
  (id, { b with exprs })

def newLiteral (b : Builder) (kind : Tag LiteralKind) (raw : StringId) (span : Span) : ExprId × Builder :=
  let (data, literals) := b.literals.alloc { kind, raw }
  { b with literals }.newExpr (.known .literal) span data

def newTuple (b : Builder) (elements : List ExprId) (span : Span) : ExprId × Builder :=
  let (data, tuples) := b.tuples.alloc elements
  { b with tuples }.newExpr (.known .tuple) span data

/-- A path lies where its segments lie. -/
def newPath (b : Builder) (segments : List NameEntry) : ExprId × Builder :=
  let (data, paths) := b.paths.alloc segments
  { b with paths }.newExpr (.known .path) (Span.joinAll (segments.map NameEntry.span)) data

def newOperator (b : Builder) (entry : OperatorEntry) (span : Span) : ExprId × Builder :=
  let (data, operators) := b.operators.alloc entry
  { b with operators }.newExpr (.known .operator) span data

def newBinary (b : Builder) (op : Tag Operator) (left right : ExprId) (span : Span) :
    Except Defect (ExprId × Builder) :=
  if op.isUnary then .error (.notBinary op) else .ok (b.newOperator { op, left, right } span)

def newUnary (b : Builder) (op : Tag Operator) (operand : ExprId) (span : Span) :
    Except Defect (ExprId × Builder) :=
  if op.isUnary then .ok (b.newOperator { op, right := operand } span) else .error (.notUnary op)

def newName (b : Builder) (name : NameEntry) : ExprId × Builder :=
  let (data, names) := b.names.alloc name
  { b with names }.newExpr (.known .name) name.span data

/-- An expression of a kind that carries no data. -/
def newBare (b : Builder) (kind : Tag ExprKind) (span : Span) : Except Defect (ExprId × Builder) :=
  if kind.hasPayload then .error (.needsPayload kind) else .ok (b.newExpr kind span 0)

def newStmt (b : Builder) (entry : StmtEntry) : StmtId × Builder :=
  let (id, stmts) := b.stmts.alloc entry
  (id, { b with stmts })

def newNode (b : Builder) (entry : NodeEntry) : NodeId × Builder :=
  let (id, nodes) := b.nodes.alloc entry
  (id, { b with nodes })

/-- A node around a statement, lying where the statement lies. -/
def newStatementNode (b : Builder) (stmt : StmtId) : Except Defect (NodeId × Builder) :=
  match b.stmt? stmt with
  | some s => .ok (b.newNode { kind := .known .statement, span := s.span, stmt })
  | none => .error .missing

def newModule (b : Builder) (span : Span) : ModuleId × Builder :=
  let (id, modules) := b.modules.alloc { span }
  (id, { b with modules })

/-- Adds a node's number to a module, whether or not the node exists. -/
def appendNode (b : Builder) (id : ModuleId) (node : NodeId) : Builder :=
  { b with modules := b.modules.modify id fun m => { m with nodes := m.nodes ++ [node] } }

/-- Adds a node to a module and widens the module's span by it. A node that does not exist is added
before it is missed. -/
def pushNode (b : Builder) (id : ModuleId) (node : NodeId) : Except Defect Span × Builder :=
  match b.module? id with
  | none => (.error .missing, b)
  | some m =>
    let b := b.appendNode id node
    match b.node? node with
    | none => (.error .missing, b)
    | some n =>
      let span := m.span.join n.span
      (.ok span, { b with modules := b.modules.modify id fun m => { m with span } })

def addName (b : Builder) : Name → NameEntry × Builder
  | .ident text span =>
    let (id, b) := b.intern text
    ({ kind := .known .ident, text := id, span }, b)
  | .placeholder span => ({ kind := .known .placeholder, span }, b)

end Builder

end LetStack.Ast
