import LetStack.Ast.Tree

/-!
`Expr.form` drops the spans of a tree. Beside it stand `Expr.literals`, `Expr.operands`, `Expr.height`, and
`ExprForm.Formed`: every operator has the operands it takes.
-/

namespace LetStack.Ast

/-! ## Forms -/

/-- A name without its place. -/
inductive NameForm where
  | ident (text : Bytes)
  | placeholder
  deriving DecidableEq, Repr, Inhabited

/-- An expression without its places. -/
inductive ExprForm where
  | literal (kind : LiteralKind) (raw : Bytes)
  | name (name : NameForm)
  | path (segments : List NameForm)
  | tuple (elements : List ExprForm)
  | unary (op : Operator) (operand : ExprForm)
  | binary (op : Operator) (left right : ExprForm)
  deriving Repr, Inhabited

/-- A statement without its places. -/
inductive StatementForm where
  | expr (value : ExprForm)
  | letIn (name : NameForm) (value : ExprForm)
  deriving Repr, Inhabited

def Name.form : Name → NameForm
  | ident text _ => .ident text
  | placeholder _ => .placeholder

mutual

def Expr.form : Expr → ExprForm
  | .literal kind raw _ => .literal kind raw
  | .name n => .name n.form
  | .path segments => .path (segments.map Name.form)
  | .tuple elements _ => .tuple (Expr.forms elements)
  | .unary op operand _ => .unary op operand.form
  | .binary op left right _ => .binary op left.form right.form

def Expr.forms : List Expr → List ExprForm
  | [] => []
  | e :: es => e.form :: Expr.forms es

end

theorem Expr.forms_eq_map (es : List Expr) : Expr.forms es = es.map Expr.form := by
  induction es with
  | nil => rfl
  | cons e es ih => rw [Expr.forms, ih, List.map_cons]

def Statement.form : Statement → StatementForm
  | expr value _ => .expr value.form
  | letIn name value _ => .letIn name.form value.form

/-! ## Literals -/

/-- A literal of an expression: its kind, its text and where it lies. -/
structure PlacedLiteral where
  kind : LiteralKind
  raw : Bytes
  span : Span
  deriving DecidableEq, Repr

mutual

/-- The literals of an expression from left to right. -/
def Expr.literals : Expr → List PlacedLiteral
  | .literal kind raw span => [⟨kind, raw, span⟩]
  | .name _ => []
  | .path _ => []
  | .tuple elements _ => Expr.allLiterals elements
  | .unary _ operand _ => operand.literals
  | .binary _ left right _ => left.literals ++ right.literals

def Expr.allLiterals : List Expr → List PlacedLiteral
  | [] => []
  | e :: es => e.literals ++ Expr.allLiterals es

end

theorem Expr.mem_allLiterals {es : List Expr} {l : PlacedLiteral} :
    l ∈ Expr.allLiterals es ↔ ∃ e ∈ es, l ∈ e.literals := by
  induction es with
  | nil => simp [Expr.allLiterals]
  | cons e es ih => simp [Expr.allLiterals, ih]

def Statement.value : Statement → Expr
  | expr value _ => value
  | letIn _ value _ => value

def Expr.kind : Expr → ExprKind
  | .literal .. => .literal
  | .name _ => .name
  | .path _ => .path
  | .tuple _ _ => .tuple
  | .unary _ _ _ => .operator
  | .binary _ _ _ _ => .operator

/-- The expressions that an expression is put together from, from left to right. -/
def Expr.operands : Expr → List Expr
  | .literal .. => []
  | .name _ => []
  | .path _ => []
  | .tuple elements _ => elements
  | .unary _ operand _ => [operand]
  | .binary _ left right _ => [left, right]

/-! ## Nesting and arity -/

mutual

/-- How many expressions lie on the longest way from an expression to a part of it. -/
def Expr.height : Expr → Nat
  | .literal .. => 1
  | .name _ => 1
  | .path _ => 1
  | .tuple elements _ => Expr.heights elements + 1
  | .unary _ operand _ => operand.height + 1
  | .binary _ left right _ => max left.height right.height + 1

def Expr.heights : List Expr → Nat
  | [] => 0
  | e :: es => max e.height (Expr.heights es)

end

theorem Expr.height_eq (e : Expr) : e.height = Expr.heights e.operands + 1 := by
  cases e <;> simp [Expr.height, Expr.heights, Expr.operands]

theorem Expr.height_le_heights {es : List Expr} {e : Expr} (h : e ∈ es) : e.height ≤ Expr.heights es := by
  induction es with
  | nil => cases h
  | cons first es ih =>
    cases h with
    | head => exact Nat.le_max_left ..
    | tail _ h => exact Nat.le_trans (ih h) (Nat.le_max_right ..)

mutual

/-- Every prefix operator stands before one operand, every other operator between two, and a tuple
has fewer than `bound` elements. -/
def ExprForm.Formed (bound : Nat) : ExprForm → Prop
  | .literal .. => True
  | .name _ => True
  | .path _ => True
  | .tuple elements => elements.length < bound ∧ ExprForm.AllFormed bound elements
  | .unary op operand => op.isUnary = true ∧ operand.Formed bound
  | .binary op left right => op.isUnary = false ∧ left.Formed bound ∧ right.Formed bound

def ExprForm.AllFormed (bound : Nat) : List ExprForm → Prop
  | [] => True
  | e :: es => e.Formed bound ∧ ExprForm.AllFormed bound es

end

theorem ExprForm.allFormed_iff {bound : Nat} {es : List ExprForm} :
    ExprForm.AllFormed bound es ↔ ∀ e ∈ es, e.Formed bound := by
  induction es with
  | nil => simp [ExprForm.AllFormed]
  | cons e es ih => simp [ExprForm.AllFormed, ih]

def StatementForm.value : StatementForm → ExprForm
  | expr value => value
  | letIn _ value => value

/-! ## Places -/

def moduleSpan (ss : List Statement) : Span :=
  (ss.map Statement.span).foldl Span.join (Span.joinAll (ss.map Statement.span))

end LetStack.Ast
