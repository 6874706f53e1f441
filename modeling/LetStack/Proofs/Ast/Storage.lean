import LetStack.Ast.Outline
import LetStack.Proofs.Ast.Form
import LetStack.Proofs.Source.Interning

/-!
`Holds b e id` says that the number `id` of the builder stands for the expression `e`. The operations of `Builder`
keep what numbers stand for (`newLiteral_grown`, `Holds.mono`), and `exprForm?` and `moduleForm?` read the form back
(`HoldsNodes.mapM_nodeForm?`).
-/

namespace LetStack

/-! ## Arenas and texts only grow -/

namespace Ast.Arena

variable {α : Type}

/-- Every number of `a` stands for the same value in `a'`. -/
def Extends (a a' : Arena α) : Prop := ∀ ⦃id x⦄, a.get? id = some x → a'.get? id = some x

theorem Extends.refl (a : Arena α) : a.Extends a := fun _ _ h => h

theorem Extends.trans {a b c : Arena α} (hab : a.Extends b) (hbc : b.Extends c) : a.Extends c :=
  fun _ _ h => hbc (hab h)

theorem get?_alloc (a : Arena α) (x : α) : (a.alloc x).2.get? (a.alloc x).1 = some x :=
  Array.getElem?_push_size

theorem extends_alloc (a : Arena α) (x : α) : a.Extends (a.alloc x).2 := by
  intro id y h
  cases id with
  | zero => cases h
  | succ n =>
    obtain ⟨hn, hy⟩ := Array.getElem?_eq_some_iff.1 h
    show (a.items.push x)[n]? = some y
    rw [Array.getElem?_push_lt hn, hy]

theorem get?_modify_self {a : Arena α} {id : Nat} {x : α} (found : a.get? id = some x) (f : α → α) :
    (a.modify id f).get? id = some (f x) := by
  cases id with
  | zero => cases found
  | succ n =>
    have found : a.items[n]? = some x := found
    show (a.items.modify n f)[n]? = some (f x)
    rw [Array.getElem?_modify, if_pos rfl, found, Option.map_some]

theorem get?_modify_of_ne (a : Arena α) {id other : Nat} (different : other ≠ id) (f : α → α) :
    (a.modify id f).get? other = a.get? other := by
  cases id with
  | zero => rfl
  | succ n =>
    cases other with
    | zero => rfl
    | succ k =>
      show (a.items.modify n f)[k]? = a.items[k]?
      rw [Array.getElem?_modify, if_neg fun same => different (congrArg Nat.succ same.symm)]

end Ast.Arena

namespace Ast

/-- Everything that a number of `b` stands for, it stands for in `b'`. -/
structure Builder.Extends (b b' : Builder) : Prop where
  strings : ∀ ⦃id s⦄, b.strings.lookup? id = some s → b'.strings.lookup? id = some s
  modules : b.modules.Extends b'.modules
  nodes : b.nodes.Extends b'.nodes
  stmts : b.stmts.Extends b'.stmts
  exprs : b.exprs.Extends b'.exprs
  literals : b.literals.Extends b'.literals
  tuples : b.tuples.Extends b'.tuples
  paths : b.paths.Extends b'.paths
  operators : b.operators.Extends b'.operators
  names : b.names.Extends b'.names

namespace Builder

theorem Extends.refl (b : Builder) : b.Extends b :=
  ⟨fun _ _ h => h, .refl _, .refl _, .refl _, .refl _, .refl _, .refl _, .refl _, .refl _, .refl _⟩

variable {b b' : Builder} {s : Statement}

theorem Extends.trans {a c : Builder} (hab : a.Extends b) (hbc : b.Extends c) : a.Extends c where
  strings _ _ h := hbc.strings (hab.strings h)
  modules := hab.modules.trans hbc.modules
  nodes := hab.nodes.trans hbc.nodes
  stmts := hab.stmts.trans hbc.stmts
  exprs := hab.exprs.trans hbc.exprs
  literals := hab.literals.trans hbc.literals
  tuples := hab.tuples.trans hbc.tuples
  paths := hab.paths.trans hbc.paths
  operators := hab.operators.trans hbc.operators
  names := hab.names.trans hbc.names

theorem extends_intern (b : Builder) (s : Bytes) : b.Extends (b.intern s).2 :=
  { Extends.refl b with strings := fun _ _ h => Interner.lookup?_intern_of_some s h }

/-! ## What a number stands for -/

def HoldsName (b : Builder) : Name → NameEntry → Prop
  | .ident text span, entry =>
    ∃ id, entry = { kind := .known .ident, text := id, span } ∧ b.strings.lookup? id = some text
  | .placeholder span, entry => entry = { kind := .known .placeholder, span }

def HoldsNames (b : Builder) : List Name → List NameEntry → Prop
  | [], entries => entries = []
  | n :: ns, entries => ∃ entry rest, entries = entry :: rest ∧ b.HoldsName n entry ∧ b.HoldsNames ns rest

mutual

/-- The number stands for the expression: its entry, the data of its kind and the numbers of its
parts. -/
def Holds (b : Builder) : Expr → ExprId → Prop
  | .literal kind raw span, id => ∃ data text,
    b.expr? id = some { kind := .known .literal, span, payload := data } ∧
    b.literals.get? data = some { kind := .known kind, raw := text } ∧
    b.strings.lookup? text = some raw
  | .name n, id => ∃ data entry,
    b.expr? id = some { kind := .known .name, span := n.span, payload := data } ∧
    b.names.get? data = some entry ∧ b.HoldsName n entry
  | .path segments, id => ∃ data entries,
    b.expr? id = some { kind := .known .path, span := (Expr.path segments).span, payload := data } ∧
    b.paths.get? data = some entries ∧ b.HoldsNames segments entries
  | .tuple elements span, id => ∃ data ids,
    b.expr? id = some { kind := .known .tuple, span, payload := data } ∧
    b.tuples.get? data = some ids ∧ HoldsAll b elements ids
  | .unary op operand span, id => ∃ data right,
    b.expr? id = some { kind := .known .operator, span, payload := data } ∧
    b.operators.get? data = some { op := .known op, right } ∧ Holds b operand right
  | .binary op l r span, id => ∃ data left right,
    b.expr? id = some { kind := .known .operator, span, payload := data } ∧
    b.operators.get? data = some { op := .known op, left, right } ∧ Holds b l left ∧ Holds b r right

def HoldsAll (b : Builder) : List Expr → List ExprId → Prop
  | [], ids => ids = []
  | e :: es, ids => ∃ id rest, ids = id :: rest ∧ Holds b e id ∧ HoldsAll b es rest

end

def HoldsStatement (b : Builder) : Statement → StmtId → Prop
  | .expr value span, id => ∃ expr,
    b.stmt? id = some { kind := .known .expr, span, expr } ∧ b.Holds value expr
  | .letIn n value span, id => ∃ expr name,
    b.stmt? id = some { kind := .known .letIn, span, expr, name } ∧ b.HoldsName n name ∧
    b.Holds value expr

/-- The number of a node around the statement. -/
def HoldsNode (b : Builder) (s : Statement) (id : NodeId) : Prop :=
  ∃ stmt, b.node? id = some { kind := .known .statement, span := s.span, stmt } ∧ b.HoldsStatement s stmt

def HoldsNodes (b : Builder) : List Statement → List NodeId → Prop
  | [], ids => ids = []
  | s :: ss, ids => ∃ id rest, ids = id :: rest ∧ b.HoldsNode s id ∧ b.HoldsNodes ss rest

/-! ## Growing keeps what numbers stand for -/

theorem HoldsName.mono (h : b.Extends b') {n : Name} {entry : NameEntry} (hn : b.HoldsName n entry) :
    b'.HoldsName n entry := by
  cases n with
  | ident text span =>
    obtain ⟨id, rfl, ht⟩ := hn
    exact ⟨id, rfl, h.strings ht⟩
  | placeholder span => exact hn

theorem HoldsNames.mono (h : b.Extends b') {ns : List Name} {entries : List NameEntry} (hn : b.HoldsNames ns entries) :
    b'.HoldsNames ns entries := by
  induction ns generalizing entries with
  | nil => exact hn
  | cons n ns ih =>
    obtain ⟨entry, rest, rfl, hn, hns⟩ := hn
    exact ⟨entry, rest, rfl, hn.mono h, ih hns⟩

mutual

theorem Holds.mono {b b' : Builder} (h : b.Extends b') {id : ExprId} :
    ∀ {e : Expr}, b.Holds e id → b'.Holds e id
  | .literal .., ⟨data, text, he, hd, ht⟩ => ⟨data, text, h.exprs he, h.literals hd, h.strings ht⟩
  | .name _, ⟨data, entry, he, hd, hn⟩ => ⟨data, entry, h.exprs he, h.names hd, hn.mono h⟩
  | .path _, ⟨data, entries, he, hd, hn⟩ => ⟨data, entries, h.exprs he, h.paths hd, hn.mono h⟩
  | .tuple _ _, ⟨data, ids, he, hd, hall⟩ => ⟨data, ids, h.exprs he, h.tuples hd, HoldsAll.mono h hall⟩
  | .unary _ _ _, ⟨data, right, he, hd, ho⟩ => ⟨data, right, h.exprs he, h.operators hd, Holds.mono h ho⟩
  | .binary _ _ _ _, ⟨data, left, right, he, hd, hl, hr⟩ =>
    ⟨data, left, right, h.exprs he, h.operators hd, Holds.mono h hl, Holds.mono h hr⟩

theorem HoldsAll.mono {b b' : Builder} (h : b.Extends b') :
    ∀ {es : List Expr} {ids : List ExprId}, b.HoldsAll es ids → b'.HoldsAll es ids
  | [], _, hall => hall
  | _ :: _, _, ⟨id, rest, hids, he, hes⟩ => ⟨id, rest, hids, Holds.mono h he, HoldsAll.mono h hes⟩

end

theorem HoldsStatement.mono (h : b.Extends b') {id : StmtId} (hs : b.HoldsStatement s id) : b'.HoldsStatement s id := by
  cases s with
  | expr value span =>
    obtain ⟨expr, hs, he⟩ := hs
    exact ⟨expr, h.stmts hs, he.mono h⟩
  | letIn n value span =>
    obtain ⟨expr, name, hs, hn, he⟩ := hs
    exact ⟨expr, name, h.stmts hs, hn.mono h, he.mono h⟩

theorem HoldsNode.mono (h : b.Extends b') {id : NodeId} (hs : b.HoldsNode s id) : b'.HoldsNode s id := by
  obtain ⟨stmt, hn, hs⟩ := hs
  exact ⟨stmt, h.nodes hn, hs.mono h⟩

/-! ## Putting in entries -/

/-- `b'` comes from `b` by putting in entries, among them `more` expressions. -/
structure Grown (b b' : Builder) (more : Nat) : Prop where
  keeps : b.Extends b'
  room : b'.exprs.size = b.exprs.size + more

theorem intern_grown (b : Builder) (s : Bytes) : b.Grown (b.intern s).2 0 :=
  ⟨b.extends_intern s, rfl⟩

theorem addName_grown (b : Builder) (n : Name) : b.Grown (b.addName n).2 0 := by
  cases n with
  | ident text span => exact b.intern_grown text
  | placeholder span => exact ⟨.refl b, rfl⟩

theorem addName_holds (b : Builder) (n : Name) : (b.addName n).2.HoldsName n (b.addName n).1 := by
  cases n with
  | ident text span => exact ⟨_, rfl, b.strings.lookup?_intern text⟩
  | placeholder span => rfl

/-! An entry with its data: one more expression, and the two numbers stand for what was put in. -/

theorem newLiteral_grown (b : Builder) (kind : Tag LiteralKind) (raw : StringId) (span : Span) :
    b.Grown (b.newLiteral kind raw span).2 1 :=
  ⟨{ Extends.refl b with literals := b.literals.extends_alloc _, exprs := b.exprs.extends_alloc _ },
    Array.size_push _⟩

theorem newName_grown (b : Builder) (entry : NameEntry) : b.Grown (b.newName entry).2 1 :=
  ⟨{ Extends.refl b with names := b.names.extends_alloc _, exprs := b.exprs.extends_alloc _ },
    Array.size_push _⟩

theorem newPath_grown (b : Builder) (segments : List NameEntry) : b.Grown (b.newPath segments).2 1 :=
  ⟨{ Extends.refl b with paths := b.paths.extends_alloc _, exprs := b.exprs.extends_alloc _ },
    Array.size_push _⟩

theorem newTuple_grown (b : Builder) (elements : List ExprId) (span : Span) :
    b.Grown (b.newTuple elements span).2 1 :=
  ⟨{ Extends.refl b with tuples := b.tuples.extends_alloc _, exprs := b.exprs.extends_alloc _ },
    Array.size_push _⟩

theorem newOperator_grown (b : Builder) (entry : OperatorEntry) (span : Span) :
    b.Grown (b.newOperator entry span).2 1 :=
  ⟨{ Extends.refl b with operators := b.operators.extends_alloc _, exprs := b.exprs.extends_alloc _ },
    Array.size_push _⟩

theorem newStmt_grown (b : Builder) (entry : StmtEntry) : b.Grown (b.newStmt entry).2 0 :=
  ⟨{ Extends.refl b with stmts := b.stmts.extends_alloc _ }, rfl⟩

theorem newNode_grown (b : Builder) (entry : NodeEntry) : b.Grown (b.newNode entry).2 0 :=
  ⟨{ Extends.refl b with nodes := b.nodes.extends_alloc _ }, rfl⟩

/-! ## Reading forms back -/

def nameForm? (b : Builder) (entry : NameEntry) : Option NameForm :=
  match entry.kind with
  | .known .ident => (b.strings.lookup? entry.text).map .ident
  | .known .placeholder => some .placeholder
  | .unknown _ => none

/-- The form of an expression nested less than `depth` deep, from its entry and the entries of its
parts. -/
def exprForm? (b : Builder) : Nat → ExprId → Option ExprForm
  | 0, _ => none
  | depth + 1, id => do
    let e ← b.expr? id
    match e.kind with
    | .known .literal =>
      let data ← b.literals.get? e.payload
      let raw ← b.strings.lookup? data.raw
      match data.kind with
      | .known kind => some (.literal kind raw)
      | .unknown _ => none
    | .known .name =>
      let entry ← b.names.get? e.payload
      return .name (← b.nameForm? entry)
    | .known .path =>
      let entries ← b.paths.get? e.payload
      return .path (← entries.mapM b.nameForm?)
    | .known .tuple =>
      let ids ← b.tuples.get? e.payload
      return .tuple (← ids.mapM (b.exprForm? depth))
    | .known .operator =>
      let data ← b.operators.get? e.payload
      match data.op with
      | .known op =>
        let right ← b.exprForm? depth data.right
        -- only a prefix operator has no left operand
        if data.left = 0 then some (.unary op right)
        else return .binary op (← b.exprForm? depth data.left) right
      | .unknown _ => none
    | _ => none

def stmtForm? (b : Builder) (id : StmtId) : Option StatementForm := do
  let s ← b.stmt? id
  let value ← b.exprForm? b.depthBound s.expr
  match s.kind with
  | .known .expr => some (.expr value)
  | .known .letIn => return .letIn (← b.nameForm? s.name) value
  | .unknown _ => none

def nodeForm? (b : Builder) (id : NodeId) : Option StatementForm := do
  let n ← b.node? id
  if n.kind = .known .statement then b.stmtForm? n.stmt else none

/-- The forms of a module's statements, none when a number among its parts stands for nothing. -/
def moduleForm? (b : Builder) (id : ModuleId) : Option (List StatementForm) := do
  let m ← b.module? id
  m.nodes.mapM b.nodeForm?

theorem HoldsName.nameForm? {n : Name} {entry : NameEntry} (h : b.HoldsName n entry) :
    b.nameForm? entry = some n.form := by
  cases n with
  | ident text span =>
    obtain ⟨id, rfl, ht⟩ := h
    simp [Builder.nameForm?, ht, Name.form]
  | placeholder span =>
    cases h
    rfl

theorem HoldsNames.mapM_nameForm? {ns : List Name} {entries : List NameEntry} (h : b.HoldsNames ns entries) :
    entries.mapM b.nameForm? = some (ns.map Name.form) := by
  induction ns generalizing entries with
  | nil =>
    cases h
    rfl
  | cons n ns ih =>
    obtain ⟨entry, rest, rfl, hn, hns⟩ := h
    simp [hn.nameForm?, ih hns]

theorem Holds.ne_zero {e : Expr} {id : ExprId} (h : b.Holds e id) : id ≠ 0 := by
  rintro rfl
  have none : b.expr? 0 = none := rfl
  cases e <;> simp [Holds, none] at h

mutual

theorem Holds.exprForm? {b : Builder} : ∀ {e : Expr} {id : ExprId} {depth : Nat}, b.Holds e id →
    e.height < depth + 1 → b.exprForm? depth id = some e.form
  | .literal kind raw span, id, depth + 1, ⟨data, text, he, hd, ht⟩, _ => by
    simp [Builder.exprForm?, he, hd, ht, Expr.form]
  | .name n, id, depth + 1, ⟨data, entry, he, hd, hn⟩, _ => by
    simp [Builder.exprForm?, he, hd, hn.nameForm?, Expr.form]
  | .path segments, id, depth + 1, ⟨data, entries, he, hd, hn⟩, _ => by
    simp [Builder.exprForm?, he, hd, hn.mapM_nameForm?, Expr.form]
  | .tuple elements span, id, depth + 1, ⟨data, ids, he, hd, hall⟩, hh => by
    have parts := HoldsAll.mapM_exprForm? hall (Nat.lt_of_succ_lt_succ hh)
    simp [Builder.exprForm?, he, hd, parts, Expr.form]
  | .unary op operand span, id, depth + 1, ⟨data, right, he, hd, ho⟩, hh => by
    have part := Holds.exprForm? ho (Nat.lt_of_succ_lt_succ hh)
    simp [Builder.exprForm?, he, hd, part, Expr.form]
  | .binary op l r span, id, depth + 1, ⟨data, left, right, he, hd, hl, hr⟩, hh => by
    have hh : max l.height r.height < depth + 1 := Nat.lt_of_succ_lt_succ hh
    have first := Holds.exprForm? hl (Nat.lt_of_le_of_lt (Nat.le_max_left ..) hh)
    have second := Holds.exprForm? hr (Nat.lt_of_le_of_lt (Nat.le_max_right ..) hh)
    simp [Builder.exprForm?, he, hd, first, second, hl.ne_zero, Expr.form]

theorem HoldsAll.mapM_exprForm? {b : Builder} : ∀ {es : List Expr} {ids : List ExprId} {depth : Nat},
    b.HoldsAll es ids → Expr.heights es < depth + 1 → ids.mapM (b.exprForm? depth) = some (Expr.forms es)
  | [], _, _, h, _ => by
    cases h
    rfl
  | e :: es, _, depth, ⟨id, rest, hids, he, hes⟩, hh => by
    have head := Holds.exprForm? he (Nat.lt_of_le_of_lt (Nat.le_max_left ..) hh)
    have tail := HoldsAll.mapM_exprForm? hes (Nat.lt_of_le_of_lt (Nat.le_max_right ..) hh)
    simp [hids, head, tail, Expr.forms]

end

theorem HoldsNode.nodeForm? {id : NodeId} (h : b.HoldsNode s id) (room : s.value.height < b.depthBound) :
    b.nodeForm? id = some s.form := by
  obtain ⟨stmt, hn, hs⟩ := h
  cases s with
  | expr value span =>
    obtain ⟨expr, hs, he⟩ := hs
    have value := he.exprForm? (Nat.lt_succ_of_lt room)
    simp [Builder.nodeForm?, stmtForm?, hn, hs, value, Statement.form]
  | letIn n value span =>
    obtain ⟨expr, name, hs, bound, he⟩ := hs
    have value := he.exprForm? (Nat.lt_succ_of_lt room)
    simp [Builder.nodeForm?, stmtForm?, hn, hs, bound.nameForm?, value, Statement.form]

theorem HoldsNodes.mapM_nodeForm? {ss : List Statement} {ids : List NodeId} (h : b.HoldsNodes ss ids)
    (room : ∀ s ∈ ss, s.value.height < b.depthBound) : ids.mapM b.nodeForm? = some (ss.map Statement.form) := by
  induction ss generalizing ids with
  | nil =>
    cases h
    rfl
  | cons s ss ih =>
    obtain ⟨id, rest, rfl, hs, hss⟩ := h
    have head := hs.nodeForm? (room s (List.mem_cons_self ..))
    have tail := ih hss fun t ht => room t (List.mem_cons_of_mem _ ht)
    simp [head, tail]

end Builder

end Ast

end LetStack
