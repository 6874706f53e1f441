import Mathlib.Data.List.Forall2
import LetStack.Proofs.Ast.Reach

/-!
Trees put in entry by entry. `Stored` adds to `Holds` that the expression is nested no deeper than there are
expressions; `newTuple`, `newUnary` and `newBinary` make it so (`newTuple_stored`, `newBinary_stored`). `exprTree?`
reads a stored tree back with its spans (`Stored.exprTree?`). `newModule` and `pushNode` change no other module
(`pushNodes_changes`, `newModule_pushed`).
-/

namespace LetStack.Ast.Builder

/-! ## Stored expressions -/

/-- The number stands for an expression nested no deeper than there are expressions. -/
structure Stored (b : Builder) (e : Expr) (id : ExprId) : Prop where
  holds : b.Holds e id
  fits : e.height ≤ b.exprs.size

variable {e : Expr} {b b' a : Builder} {n : Name} {ns : List Name} {entries : List NameEntry} {es : List Expr}
  {ids : List ExprId} {s : Statement} {ss : List Statement} {nodes : List NodeId} {m : ModuleEntry}

theorem Stored.mono {id : ExprId} (stored : b.Stored e id) (keeps : b.Extends b') : b'.Stored e id :=
  ⟨stored.holds.mono keeps, Nat.le_trans stored.fits (size_le_of_extends keeps.exprs)⟩

theorem Grown.stored {id : ExprId} (grown : b.Grown b' 1) (holds : b'.Holds e id)
    (parts : e.height ≤ b.exprs.size + 1) : b'.Stored e id :=
  ⟨holds, Nat.le_trans parts (Nat.le_of_eq grown.room.symm)⟩

theorem newLiteral_stored {text : StringId} {raw : Bytes} (known : b.strings.lookup? text = some raw)
    (kind : LiteralKind) (span : Span) :
    (b.newLiteral (.known kind) text span).2.Stored (.literal kind raw span)
      (b.newLiteral (.known kind) text span).1 := by
  refine (newLiteral_grown ..).stored ?_ (Nat.le_add_left ..)
  rw [Holds]
  exact ⟨_, _, Arena.get?_alloc .., Arena.get?_alloc .., known⟩

theorem newName_stored {entry : NameEntry} (held : b.HoldsName n entry) :
    (b.newName entry).2.Stored (.name n) (b.newName entry).1 := by
  refine (newName_grown ..).stored ?_ (Nat.le_add_left ..)
  rw [Holds, ← held.span]
  exact ⟨_, _, Arena.get?_alloc .., Arena.get?_alloc .., held.mono (newName_grown ..).keeps⟩

theorem holdsNames_of_paired (held : List.Forall₂ b.HoldsName ns entries) : b.HoldsNames ns entries := by
  induction held with
  | nil => rfl
  | cons first _ rest => exact ⟨_, _, rfl, first, rest⟩

theorem spans_of_paired (held : List.Forall₂ b.HoldsName ns entries) :
    entries.map NameEntry.span = ns.map Name.span := by
  induction held with
  | nil => rfl
  | cons first _ rest => rw [List.map_cons, List.map_cons, first.span, rest]

theorem newPath_stored (held : List.Forall₂ b.HoldsName ns entries) :
    (b.newPath entries).2.Stored (.path ns) (b.newPath entries).1 := by
  refine (newPath_grown ..).stored ?_ (Nat.le_add_left ..)
  rw [Holds, Expr.span, ← spans_of_paired held]
  exact ⟨_, _, Arena.get?_alloc .., Arena.get?_alloc .., (holdsNames_of_paired held).mono (newPath_grown ..).keeps⟩

theorem holdsAll_of_stored (stored : List.Forall₂ b.Stored es ids) : b.HoldsAll es ids := by
  induction stored with
  | nil => rw [HoldsAll]
  | cons first _ rest =>
    rw [HoldsAll]
    exact ⟨_, _, rfl, first.holds, rest⟩

theorem heights_le_of_stored (stored : List.Forall₂ b.Stored es ids) : Expr.heights es ≤ b.exprs.size := by
  induction stored with
  | nil => exact Nat.zero_le _
  | cons first _ rest => exact Nat.max_le.2 ⟨first.fits, rest⟩

theorem newTuple_stored (stored : List.Forall₂ b.Stored es ids) (span : Span) :
    (b.newTuple ids span).2.Stored (.tuple es span) (b.newTuple ids span).1 := by
  refine (newTuple_grown ..).stored ?_ (Nat.succ_le_succ (heights_le_of_stored stored))
  rw [Holds]
  exact ⟨_, _, Arena.get?_alloc .., Arena.get?_alloc .., (holdsAll_of_stored stored).mono (newTuple_grown ..).keeps⟩

theorem newUnary_stored {right : ExprId} (stored : b.Stored e right) (op : Operator) (span : Span) :
    (b.newOperator { op := .known op, right } span).2.Stored (.unary op e span)
      (b.newOperator { op := .known op, right } span).1 := by
  refine (newOperator_grown ..).stored ?_ (Nat.succ_le_succ stored.fits)
  rw [Holds]
  exact ⟨_, _, Arena.get?_alloc .., Arena.get?_alloc .., stored.holds.mono (newOperator_grown ..).keeps⟩

theorem newBinary_stored {l r : Expr} {left right : ExprId} (hl : b.Stored l left) (hr : b.Stored r right)
    (op : Operator) (span : Span) :
    (b.newOperator { op := .known op, left, right } span).2.Stored (.binary op l r span)
      (b.newOperator { op := .known op, left, right } span).1 := by
  refine (newOperator_grown ..).stored ?_ (Nat.succ_le_succ (Nat.max_le.2 ⟨hl.fits, hr.fits⟩))
  have keeps := (b.newOperator_grown { op := .known op, left, right } span).keeps
  rw [Holds]
  exact ⟨_, _, _, Arena.get?_alloc .., Arena.get?_alloc .., hl.holds.mono keeps, hr.holds.mono keeps⟩

/-! ## Stored statements -/

/-- The number stands for a statement whose value there is room for. -/
structure StoredStatement (b : Builder) (s : Statement) (id : StmtId) : Prop where
  holds : b.HoldsStatement s id
  fits : s.value.height ≤ b.exprs.size

theorem StoredStatement.mono {id : StmtId} (stored : b.StoredStatement s id) (keeps : b.Extends b') :
    b'.StoredStatement s id :=
  ⟨stored.holds.mono keeps, Nat.le_trans stored.fits (size_le_of_extends keeps.exprs)⟩

/-- The number of a node around a statement whose value there is room for. -/
structure StoredNode (b : Builder) (s : Statement) (id : NodeId) : Prop where
  holds : b.HoldsNode s id
  fits : s.value.height ≤ b.exprs.size

theorem StoredNode.mono {id : NodeId} (stored : b.StoredNode s id) (keeps : b.Extends b') : b'.StoredNode s id :=
  ⟨stored.holds.mono keeps, Nat.le_trans stored.fits (size_le_of_extends keeps.exprs)⟩

theorem newExprStmt_stored {expr : ExprId} (stored : b.Stored e expr) (span : Span) :
    (b.newStmt { kind := .known .expr, span, expr }).2.StoredStatement (.expr e span)
      (b.newStmt { kind := .known .expr, span, expr }).1 :=
  ⟨⟨_, Arena.get?_alloc .., stored.holds.mono (newStmt_grown ..).keeps⟩, stored.fits⟩

theorem newLetStmt_stored {name : NameEntry} {expr : ExprId} (held : b.HoldsName n name) (stored : b.Stored e expr)
    (span : Span) :
    (b.newStmt { kind := .known .letIn, span, expr, name }).2.StoredStatement (.letIn n e span)
      (b.newStmt { kind := .known .letIn, span, expr, name }).1 :=
  ⟨⟨_, _, Arena.get?_alloc .., held.mono (newStmt_grown ..).keeps, stored.holds.mono (newStmt_grown ..).keeps⟩,
    stored.fits⟩

theorem newStatementNode_stored {stmt : StmtId} (stored : b.StoredStatement s stmt) :
    (b.newNode { kind := .known .statement, span := s.span, stmt }).2.StoredNode s
      (b.newNode { kind := .known .statement, span := s.span, stmt }).1 :=
  ⟨⟨_, Arena.get?_alloc .., stored.holds.mono (newNode_grown ..).keeps⟩, stored.fits⟩

/-! ## Reading trees back -/

/-- The name of an entry, with its text and place. -/
def nameTree? (b : Builder) (entry : NameEntry) : Option Name :=
  match entry.kind with
  | .known .ident => (b.strings.lookup? entry.text).map (.ident · entry.span)
  | .known .placeholder => some (.placeholder entry.span)
  | .unknown _ => none

/-- The expression nested at most `depth` deep that a number stands for, with the places of its parts. There is none
when an entry does not lie where its parts say. -/
def exprTree? (b : Builder) : Nat → ExprId → Option Expr
  | 0, _ => none
  | depth + 1, id => do
    let e ← b.expr? id
    let tree ← match e.kind with
      | .known .literal => do
        let data ← b.literals.get? e.payload
        let raw ← b.strings.lookup? data.raw
        match data.kind with
        | .known kind => some (.literal kind raw e.span)
        | .unknown _ => none
      | .known .name => do
        let entry ← b.names.get? e.payload
        return .name (← b.nameTree? entry)
      | .known .path => do
        let entries ← b.paths.get? e.payload
        return .path (← entries.mapM b.nameTree?)
      | .known .tuple => do
        let ids ← b.tuples.get? e.payload
        return .tuple (← ids.mapM (b.exprTree? depth)) e.span
      | .known .operator => do
        let data ← b.operators.get? e.payload
        match data.op with
        | .known op =>
          let right ← b.exprTree? depth data.right
          if data.left = 0 then some (.unary op right e.span)
          else return .binary op (← b.exprTree? depth data.left) right e.span
        | .unknown _ => none
      | _ => none
    if tree.span = e.span then some tree else none

def stmtTree? (b : Builder) (id : StmtId) : Option Statement := do
  let s ← b.stmt? id
  let value ← b.exprTree? b.depthBound s.expr
  match s.kind with
  | .known .expr => some (.expr value s.span)
  | .known .letIn => return .letIn (← b.nameTree? s.name) value s.span
  | .unknown _ => none

def nodeTree? (b : Builder) (id : NodeId) : Option Statement := do
  let n ← b.node? id
  let statement ← if n.kind = .known .statement then b.stmtTree? n.stmt else none
  if statement.span = n.span then some statement else none

/-- The place of a module and its statements. -/
def moduleTree? (b : Builder) (id : ModuleId) : Option (Span × List Statement) := do
  let m ← b.module? id
  return (m.span, ← m.nodes.mapM b.nodeTree?)

theorem HoldsName.nameTree? {entry : NameEntry} (h : b.HoldsName n entry) : b.nameTree? entry = some n := by
  cases n with
  | ident text span =>
    obtain ⟨id, rfl, ht⟩ := h
    simp [Builder.nameTree?, ht]
  | placeholder span =>
    cases h
    rfl

theorem HoldsNames.mapM_nameTree? (h : b.HoldsNames ns entries) : entries.mapM b.nameTree? = some ns := by
  induction ns generalizing entries with
  | nil =>
    cases h
    rfl
  | cons n ns ih =>
    obtain ⟨entry, rest, rfl, hn, hns⟩ := h
    simp [hn.nameTree?, ih hns]

mutual

theorem Holds.exprTree? {b : Builder} : ∀ {e : Expr} {id : ExprId} {depth : Nat}, b.Holds e id →
    e.height ≤ depth → b.exprTree? depth id = some e
  | .literal kind raw span, id, depth + 1, ⟨data, text, he, hd, ht⟩, _ => by
    simp [Builder.exprTree?, he, hd, ht, Expr.span]
  | .name n, id, depth + 1, ⟨data, entry, he, hd, hn⟩, _ => by
    simp [Builder.exprTree?, he, hd, hn.nameTree?, Expr.span]
  | .path segments, id, depth + 1, ⟨data, entries, he, hd, hn⟩, _ => by
    simp [Builder.exprTree?, he, hd, hn.mapM_nameTree?, Expr.span]
  | .tuple elements span, id, depth + 1, ⟨data, ids, he, hd, hall⟩, hh => by
    have parts := HoldsAll.mapM_exprTree? hall (Nat.le_of_succ_le_succ hh)
    simp [Builder.exprTree?, he, hd, parts, Expr.span]
  | .unary op operand span, id, depth + 1, ⟨data, right, he, hd, ho⟩, hh => by
    have part := Holds.exprTree? ho (Nat.le_of_succ_le_succ hh)
    simp [Builder.exprTree?, he, hd, part, Expr.span]
  | .binary op l r span, id, depth + 1, ⟨data, left, right, he, hd, hl, hr⟩, hh => by
    have parts := Nat.max_le.1 (Nat.le_of_succ_le_succ hh)
    have first := Holds.exprTree? hl parts.1
    have second := Holds.exprTree? hr parts.2
    simp [Builder.exprTree?, he, hd, first, second, hl.ne_zero, Expr.span]

theorem HoldsAll.mapM_exprTree? {b : Builder} : ∀ {es : List Expr} {ids : List ExprId} {depth : Nat},
    b.HoldsAll es ids → Expr.heights es ≤ depth → ids.mapM (b.exprTree? depth) = some es
  | [], _, _, h, _ => by
    cases h
    rfl
  | e :: es, _, depth, ⟨id, rest, hids, he, hes⟩, hh => by
    have head := Holds.exprTree? he (Nat.max_le.1 hh).1
    have tail := HoldsAll.mapM_exprTree? hes (Nat.max_le.1 hh).2
    simp [hids, head, tail]

end

theorem Stored.exprTree? {id : ExprId} (stored : b.Stored e id) : b.exprTree? b.depthBound id = some e :=
  stored.holds.exprTree? (Nat.le_succ_of_le stored.fits)

theorem StoredNode.nodeTree? {id : NodeId} (stored : b.StoredNode s id) : b.nodeTree? id = some s := by
  obtain ⟨⟨stmt, hn, hs⟩, fits⟩ := stored
  cases s with
  | expr value span =>
    obtain ⟨expr, hs, he⟩ := hs
    have value := Stored.exprTree? ⟨he, fits⟩
    simp [Builder.nodeTree?, stmtTree?, hn, hs, value, Statement.span]
  | letIn n value span =>
    obtain ⟨expr, name, hs, bound, he⟩ := hs
    have value := Stored.exprTree? ⟨he, fits⟩
    simp [Builder.nodeTree?, stmtTree?, hn, hs, bound.nameTree?, value, Statement.span]

theorem mapM_nodeTree? (stored : List.Forall₂ b.StoredNode ss nodes) : nodes.mapM b.nodeTree? = some ss := by
  induction stored with
  | nil => rfl
  | cons first _ rest => simp [first.nodeTree?, rest]

/-! ## Places of entries -/

theorem Stored.exprSpan {id : ExprId} (stored : b.Stored e id) : b.exprSpan id = e.span := by
  obtain ⟨payload, found⟩ := stored.holds.entry
  rw [Builder.exprSpan, found, Option.map_some, Option.getD_some]

theorem StoredStatement.stmtSpan {id : StmtId} (stored : b.StoredStatement s id) : b.stmtSpan id = s.span := by
  obtain ⟨entry, found, lies⟩ := stored.holds.stmt?_span
  rw [Builder.stmtSpan, found, Option.map_some, Option.getD_some, lies]

theorem StoredNode.nodeSpan {id : NodeId} (stored : b.StoredNode s id) : b.nodeSpan id = s.span := by
  obtain ⟨stmt, found, _⟩ := stored.holds
  rw [Builder.nodeSpan, found, Option.map_some, Option.getD_some]

theorem map_nodeSpan (stored : List.Forall₂ b.StoredNode ss nodes) : nodes.map b.nodeSpan = ss.map Statement.span := by
  induction stored with
  | nil => rfl
  | cons first _ rest => rw [List.map_cons, List.map_cons, first.nodeSpan, rest]

/-! ## Adding nodes to a module -/

/-- `b'` differs from `b` in one module only, which has become `m`. -/
structure Changes (b b' : Builder) (id : ModuleId) (m : ModuleEntry) : Prop where
  rest : b' = { b with modules := b'.modules }
  changed : b'.module? id = some m
  others : ∀ ⦃other⦄, other ≠ id → b'.module? other = b.module? other

theorem Changes.trans {c : Builder} {id : ModuleId} {m' : ModuleEntry} (first : a.Changes b id m)
    (second : b.Changes c id m') : a.Changes c id m' where
  rest := by rw [second.rest, first.rest]
  changed := second.changed
  others _ different := (second.others different).trans (first.others different)

/-- A change to a module that `a` does not have keeps everything of `a`. -/
theorem Changes.keeps {c : Builder} {id : ModuleId} (changes : b.Changes c id m) (grown : a.Extends b)
    (fresh : a.module? id = none) : a.Extends c := by
  have modules : a.modules.Extends c.modules := by
    intro other entry found
    have different : other ≠ id := by
      rintro rfl
      cases fresh.symm.trans found
    exact (changes.others different).trans (grown.modules found)
  rw [changes.rest]
  exact { grown with modules }

theorem pushNode_changes {id : ModuleId} {n : NodeId} {entry : NodeEntry} (found : b.module? id = some m)
    (node : b.node? n = some entry) :
    b.Changes (b.pushNode id n).2 id { span := m.span.join (b.nodeSpan n), nodes := m.nodes ++ [n] } := by
  have appended : (b.appendNode id n).module? id = some { m with nodes := m.nodes ++ [n] } := Arena.get?_modify_self found _
  have there : (b.appendNode id n).node? n = some entry := node
  have lies : b.nodeSpan n = entry.span := by rw [nodeSpan, node, Option.map_some, Option.getD_some]
  simp only [pushNode, found, there, lies]
  exact ⟨rfl, Arena.get?_modify_self appended _,
    fun _ different => (Arena.get?_modify_of_ne _ different _).trans (Arena.get?_modify_of_ne _ different _)⟩

/-- A module gets all the nodes in order, and its place is widened by theirs. -/
theorem pushNodes_changes {id : ModuleId} (there : ∀ n ∈ nodes, ∃ entry, b.node? n = some entry)
    (found : b.module? id = some m) :
    b.Changes (nodes.foldl (fun b n => (b.pushNode id n).2) b) id
      { span := (nodes.map b.nodeSpan).foldl Span.join m.span, nodes := m.nodes ++ nodes } := by
  induction nodes generalizing b m with
  | nil => exact ⟨rfl, by simpa using found, fun _ _ => rfl⟩
  | cons n nodes ih =>
    obtain ⟨entry, node⟩ := there n List.mem_cons_self
    have first := pushNode_changes found node
    have same : (b.pushNode id n).2.node? = b.node? := by rw [first.rest]; rfl
    have spans : (b.pushNode id n).2.nodeSpan = b.nodeSpan := by
      funext k
      rw [nodeSpan, same, nodeSpan]
    have later := ih (fun k member => same ▸ there k (List.mem_cons_of_mem n member)) first.changed
    rw [spans, List.append_assoc, List.singleton_append] at later
    exact first.trans later

theorem exists_node (stored : List.Forall₂ b.StoredNode ss nodes) : ∀ n ∈ nodes, ∃ entry, b.node? n = some entry := by
  induction stored with
  | nil => simp
  | cons first _ rest =>
    obtain ⟨_, found, _⟩ := first.holds
    exact List.forall_mem_cons.2 ⟨⟨_, found⟩, rest⟩

theorem newModule_pushed (there : ∀ n ∈ nodes, ∃ entry, b.node? n = some entry) (span : Span) :
    let added := b.newModule span
    let b' := nodes.foldl (fun b n => (b.pushNode added.1 n).2) added.2
    b.Extends b' ∧ b'.module? added.1 = some { span := (nodes.map b.nodeSpan).foldl Span.join span, nodes } := by
  intro added b'
  have grown : b.Extends added.2 := { Extends.refl b with modules := Arena.extends_alloc _ _ }
  have changes : added.2.Changes b' added.1 { span := (nodes.map b.nodeSpan).foldl Span.join span, nodes } :=
    pushNodes_changes (b := added.2) there (Arena.get?_alloc b.modules { span })
  exact ⟨changes.keeps grown (Array.getElem?_eq_none (Nat.le_refl _)), changes.changed⟩

/-! ## Entries behind those of an earlier builder -/

/-- Between `a` and `b` an expression was put in: the number stands for it, and its tree has numbers that `a` did not
have. -/
structure AddedExpr (a b : Builder) (e : Expr) (id : ExprId) : Prop where
  stored : b.Stored e id
  planted : b.Planted (Between a.exprs.size b.exprs.size) [id]

/-- Between `a` and `b` a statement was put in, with its value. -/
structure AddedStatement (a b : Builder) (s : Statement) (id : StmtId) : Prop where
  stored : b.StoredStatement s id
  between : Between a.stmts.size b.stmts.size id
  value : ∃ entry, b.stmt? id = some entry ∧ b.Planted (Between a.exprs.size b.exprs.size) [entry.expr]

/-- Between `a` and `b` a node was put in, with the statement that it is around. -/
structure AddedNode (a b : Builder) (s : Statement) (id : NodeId) : Prop where
  stored : b.StoredNode s id
  between : Between a.nodes.size b.nodes.size id
  stmt : ∃ entry, b.node? id = some entry ∧ AddedStatement a b s entry.stmt

/-- Values that were put in one after another, between `a` and `b`. -/
inductive Consecutive {α β : Type} (Added : Builder → Builder → α → β → Prop) :
    Builder → Builder → List α → List β → Prop
  | nil {a b : Builder} : a.Extends b → Consecutive Added a b [] []
  | cons {a mid b : Builder} {x : α} {v : β} {xs : List α} {vs : List β} : a.Extends mid → Added a mid x v →
      Consecutive Added mid b xs vs → Consecutive Added a b (x :: xs) (v :: vs)

theorem Between.widen {low high low' high' x : Nat} (h : Between low high x) (lower : low' ≤ low)
    (higher : high ≤ high') : Between low' high' x :=
  ⟨Nat.lt_of_le_of_lt lower h.1, Nat.le_trans h.2 higher⟩

theorem Between.apart {low mid high x : Nat} (h : Between low mid x) : ¬Between mid high x :=
  fun behind => absurd h.2 (Nat.not_le_of_lt behind.1)

theorem Between.join {low mid high x : Nat} (h : Between low mid x ∨ Between mid high x) (up : low ≤ mid)
    (further : mid ≤ high) : Between low high x := by
  rcases h with front | behind
  · exact front.widen (Nat.le_refl _) further
  · exact behind.widen up (Nat.le_refl _)

theorem AddedExpr.widen {a' : Builder} {id : ExprId} (h : AddedExpr a b e id) (before : a'.Extends a)
    (later : b.Extends b') : AddedExpr a' b' e id where
  stored := h.stored.mono later
  planted := (h.planted.mono later).widen fun _ mine =>
    mine.widen (size_le_of_extends before.exprs) (size_le_of_extends later.exprs)

theorem AddedStatement.widen {a' : Builder} {id : StmtId} (h : AddedStatement a b s id) (before : a'.Extends a)
    (later : b.Extends b') : AddedStatement a' b' s id where
  stored := h.stored.mono later
  between := h.between.widen (size_le_of_extends before.stmts) (size_le_of_extends later.stmts)
  value := by
    obtain ⟨entry, found, planted⟩ := h.value
    exact ⟨entry, later.stmts found, (planted.mono later).widen fun _ mine =>
      mine.widen (size_le_of_extends before.exprs) (size_le_of_extends later.exprs)⟩

theorem AddedNode.widen {a' : Builder} {id : NodeId} (h : AddedNode a b s id) (before : a'.Extends a)
    (later : b.Extends b') : AddedNode a' b' s id where
  stored := h.stored.mono later
  between := h.between.widen (size_le_of_extends before.nodes) (size_le_of_extends later.nodes)
  stmt := by
    obtain ⟨entry, found, added⟩ := h.stmt
    exact ⟨entry, later.nodes found, added.widen before later⟩

namespace Consecutive

variable {α β : Type} {Added : Builder → Builder → α → β → Prop} {a b : Builder} {xs : List α} {vs : List β}

theorem keeps (h : Consecutive Added a b xs vs) : a.Extends b := by
  induction h with
  | nil grown => exact grown
  | cons grown _ _ ih => exact grown.trans ih

theorem forall₂ {P : Builder → α → β → Prop} (h : Consecutive Added a b xs vs)
    (holds : ∀ {a b x v}, Added a b x v → P b x v) (mono : ∀ {b b' x v}, b.Extends b' → P b x v → P b' x v) :
    List.Forall₂ (P b) xs vs := by
  induction h with
  | nil _ => exact .nil
  | cons _ first rest ih => exact .cons (mono rest.keeps (holds first)) ih

theorem widen {a' b' : Builder} (h : Consecutive Added a b xs vs)
    (each : ∀ {a a' b b' : Builder} {x : α} {v : β}, Added a b x v → a'.Extends a → b.Extends b' → Added a' b' x v)
    (before : a'.Extends a) (later : b.Extends b') : Consecutive Added a' b' xs vs := by
  induction h generalizing a' with
  | nil grown => exact .nil ((before.trans grown).trans later)
  | cons grown first _ ih => exact .cons (before.trans grown) (each first before (.refl _)) (ih (.refl _) later)

end Consecutive

theorem planted_of_consecutive (h : Consecutive AddedExpr a b es ids) :
    b.Planted (Between a.exprs.size b.exprs.size) ids := by
  induction h with
  | nil _ => exact .nil
  | cons grown first rest ih =>
    have both := (first.planted.mono rest.keeps).cons ih fun _ => Between.apart
    exact both.widen fun _ mine =>
      Between.join mine (size_le_of_extends grown.exprs) (size_le_of_extends rest.keeps.exprs)

/-! ## Nodes behind those of an earlier builder -/

/-- Nodes that were put in one after another, their statements and the trees of these all have numbers of their own. -/
theorem addedNodes_numbers (h : Consecutive AddedNode a b ss nodes) (keeps : b.Extends b') :
    (a.nodes.size :: nodes).Pairwise (· < ·) ∧ (a.stmts.size :: nodes.map b'.stmtOf).Pairwise (· < ·) ∧
      b'.Forest (Between a.exprs.size b.exprs.size) (nodes.map b'.valueOf) := by
  induction h with
  | nil _ => exact ⟨List.pairwise_singleton .., List.pairwise_singleton .., .nil⟩
  | @cons a mid b s id _ _ grown first rest ih =>
    obtain ⟨nodes, stmts, trees⟩ := ih keeps
    have later := rest.keeps.trans keeps
    obtain ⟨entry, found, added⟩ := first.stmt
    obtain ⟨data, read, planted⟩ := added.value
    have stmt : b'.stmtOf id = entry.stmt := stmtOf_eq (later.nodes found)
    have value : b'.valueOf id = data.expr := valueOf_eq (stmt ▸ later.stmts read)
    rw [List.map_cons, List.map_cons, stmt, value]
    refine ⟨pairwise_cons_of_le nodes first.between.1 first.between.2,
      pairwise_cons_of_le stmts added.between.1 added.between.2, ?_⟩
    have both := (planted later).cons trees fun _ => Between.apart
    exact both.mono fun _ mine =>
      Between.join mine (size_le_of_extends grown.exprs) (size_le_of_extends rest.keeps.exprs)

section
variable {a b b' : Builder} {ss : List Statement} {nodes : List NodeId} (added : Consecutive AddedNode a b ss nodes)
  (keeps : b.Extends b')
include added keeps

/-- No part of nodes that were put in one after another is reached in two ways. -/
theorem addedNodes_reached_once {way way' : List Nat} {part : Part} (h : b'.Reached nodes way part)
    (h' : b'.Reached nodes way' part) : way = way' := by
  obtain ⟨numbers, stmts, trees⟩ := addedNodes_numbers added keeps
  have first := h.leadsTo
  have second := h'.leadsTo
  cases part with
  | node id =>
    obtain ⟨i, rfl, hi⟩ := first
    obtain ⟨j, rfl, hj⟩ := second
    rw [index_unique numbers hi hj]
  | stmt id =>
    obtain ⟨i, rfl, hi⟩ := first
    obtain ⟨j, rfl, hj⟩ := second
    rw [index_unique stmts hi hj]
  | expr id => exact trees.once first second

theorem addedNodes_operands_lt {way : List Nat} {x : ExprId} (h : b'.Reached nodes way (.expr x)) :
    ∀ c ∈ b'.operands x, c < x :=
  (addedNodes_numbers added keeps).2.2.smaller h.leadsTo

end

/-! ## Modules -/

/-- Between `a` and `b` a module was put in: its nodes one after another, and then the module around them. -/
structure AddedModule (a b : Builder) (ss : List Statement) (id : ModuleId) : Prop where
  keeps : a.Extends b
  nodes : ∃ nodes, b.module? id = some { span := moduleSpan ss, nodes } ∧ Consecutive AddedNode a b ss nodes

theorem holdsNodes_of_stored (stored : List.Forall₂ b.StoredNode ss nodes) : b.HoldsNodes ss nodes := by
  induction stored with
  | nil => rfl
  | cons first _ rest => exact ⟨_, _, rfl, first.holds, rest⟩

theorem room_of_stored (stored : List.Forall₂ b.StoredNode ss nodes) : ∀ s ∈ ss, s.value.height < b.depthBound := by
  induction stored with
  | nil => simp
  | cons first _ rest => exact List.forall_mem_cons.2 ⟨Nat.lt_succ_of_le first.fits, rest⟩

/-- The module with a number has a node around each of the statements. -/
structure StoredModule (b : Builder) (ss : List Statement) (id : ModuleId) (m : ModuleEntry) : Prop where
  found : b.module? id = some m
  span : m.span = moduleSpan ss
  nodes : List.Forall₂ b.StoredNode ss m.nodes

namespace StoredModule

variable {b : Builder} {ss : List Statement} {id : ModuleId} {m : ModuleEntry}

theorem holds (h : b.StoredModule ss id m) : b.HoldsNodes ss m.nodes := holdsNodes_of_stored h.nodes

theorem room (h : b.StoredModule ss id m) : ∀ s ∈ ss, s.value.height < b.depthBound := room_of_stored h.nodes

theorem moduleTree? (h : b.StoredModule ss id m) : b.moduleTree? id = some (moduleSpan ss, ss) := by
  rw [Builder.moduleTree?, h.found]
  simp [mapM_nodeTree? h.nodes, h.span]

theorem moduleForm? (h : b.StoredModule ss id m) : b.moduleForm? id = some (ss.map Statement.form) := by
  rw [Builder.moduleForm?, h.found]
  exact h.holds.mapM_nodeForm? h.room

end StoredModule

theorem AddedModule.stored {id : ModuleId} (h : AddedModule a b ss id) : ∃ m, b.StoredModule ss id m := by
  obtain ⟨nodes, found, added⟩ := h.nodes
  exact ⟨_, found, rfl, added.forall₂ AddedNode.stored fun keeps held => held.mono keeps⟩

end LetStack.Ast.Builder
