import LetStack.Ast.Builder

/-!
The outline of a tree: what each entry is, its text and where it lies, with the outlines of its parts.
Numbers that stand for nothing show as `<nil>`; broken data is a defect.
-/

namespace LetStack.Ast

structure Outline where
  type : String
  kind : Bytes := []
  text : Bytes := []
  span : Span
  children : List Outline := []
  deriving Repr, Inhabited

namespace Outline

/-- The entry that a number of nothing shows as. -/
def nothing (type : String) : Outline := { type, kind := "<nil>", span := .empty }

def label (o : Outline) : Bytes := if o.kind = [] then o.type else o.type ++ " " ++ o.kind

end Outline

namespace Builder

/-- The outline of an expression nested less than `depth` deep. An expression deeper than there are
expressions is part of itself. -/
def exprOutline (b : Builder) : Nat → ExprId → Except Defect Outline
  | 0, _ => .error .cyclic
  | depth + 1, id =>
    match b.expr? id with
    | none => .ok (.nothing "Expr")
    | some e =>
      let bare : Outline := { type := "Expr", kind := e.kind.exprName, span := e.span }
      match e.kind with
      | .known .literal => do
        let data ← payload b.literals e
        let text ← b.text data.raw
        return { bare with kind := "Literal " ++ data.kind.literalName, text }
      | .known .name => do
        let data ← payload b.names e
        return { bare with text := ← b.nameText data }
      | .known .path => do
        let segments ← payload b.paths e
        return { bare with text := Bytes.join "." (← segments.mapM b.nameText) }
      | .known .tuple => do
        let elements ← payload b.tuples e
        return { bare with children := ← elements.mapM (b.exprOutline depth) }
      | .known .operator => do
        let data ← payload b.operators e
        let operands := if data.left = 0 then [data.right] else [data.left, data.right]
        return { bare with text := data.op.symbol, children := ← operands.mapM (b.exprOutline depth) }
      | _ => .ok bare

/-- A depth that no expression without itself inside reaches. -/
def depthBound (b : Builder) : Nat := b.exprs.size + 1

def stmtOutline (b : Builder) (id : StmtId) : Except Defect Outline :=
  match b.stmt? id with
  | none => .ok (.nothing "Stmt")
  | some s => do
    let text ← if s.kind = .known .letIn then b.nameText s.name else .ok []
    let value ← b.exprOutline b.depthBound s.expr
    return { type := "Stmt", kind := s.kind.statementName, text, span := s.span, children := [value] }

def nodeOutline (b : Builder) (id : NodeId) : Except Defect Outline :=
  match b.node? id with
  | none => .ok (.nothing "Node")
  | some n =>
    if n.kind = .known .directive then
      .ok { type := "Directive", text := (b.strings.lookup? n.directive).getD [], span := n.span }
    else b.stmtOutline n.stmt

def outline? (b : Builder) (id : ModuleId) : Option (Except Defect Outline) :=
  (b.module? id).map fun m => do
    return { type := "Module", span := m.span, children := ← m.nodes.mapM b.nodeOutline }

end Builder

end LetStack.Ast
