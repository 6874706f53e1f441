import LetStack.Proofs.Ast.Storage

/-!
What is reached from a module. `Reached` follows the numbers of a builder from the nodes of a module through
statements to expressions and their operands. A `Forest` is a list of expressions whose operands have smaller numbers
and below which no number is reached twice; `newTuple` and `newOperator` plant one (`newTuple_planted`,
`newOperator_planted`).
-/

namespace LetStack.Ast.Builder

/-! ## Following numbers -/

/-- The numbers of an expression's operands from left to right. -/
def operands (b : Builder) (id : ExprId) : List ExprId :=
  match b.expr? id with
  | none => []
  | some e =>
    match e.kind with
    | .known .tuple => (b.tuples.get? e.payload).getD []
    | .known .operator =>
      match b.operators.get? e.payload with
      | none => []
      | some data => if data.left = 0 then [data.right] else [data.left, data.right]
    | _ => []

/-- A part of a module, as a number of its own arena. -/
inductive Part where
  | node (id : NodeId)
  | stmt (id : StmtId)
  | expr (id : ExprId)
  deriving DecidableEq, Repr

/-- What is reached from the nodes of a module. The way to a part is the place of its node in the module and
then, operand by operand, the place among the operands. -/
inductive Reached (b : Builder) (nodes : List NodeId) : List Nat → Part → Prop
  | node {i : Nat} {id : NodeId} : nodes[i]? = some id → Reached b nodes [i] (.node id)
  | stmt {way : List Nat} {id : NodeId} {n : NodeEntry} : Reached b nodes way (.node id) → b.node? id = some n →
      n.kind = .known .statement → Reached b nodes way (.stmt n.stmt)
  | value {way : List Nat} {id : StmtId} {s : StmtEntry} : Reached b nodes way (.stmt id) → b.stmt? id = some s →
      Reached b nodes way (.expr s.expr)
  | operand {way : List Nat} {id c : ExprId} {i : Nat} : Reached b nodes way (.expr id) →
      (b.operands id)[i]? = some c → Reached b nodes (way ++ [i]) (.expr c)

variable {b : Builder} {ids : List ExprId} {ss : List Statement} {nodes : List NodeId} {x : ExprId} {way : List Nat}

theorem operands_of_leaf {id : ExprId} {kind : ExprKind} {span : Span} {payload : PayloadId}
    (read : b.expr? id = some { kind := .known kind, span, payload }) (leaf : kind ≠ .tuple ∧ kind ≠ .operator) :
    b.operands id = [] := by
  unfold operands
  rw [read]
  cases kind <;> simp at leaf ⊢

theorem operands_of_tuple {id : ExprId} {span : Span} {payload : PayloadId}
    (read : b.expr? id = some { kind := .known .tuple, span, payload }) (data : b.tuples.get? payload = some ids) :
    b.operands id = ids := by
  simp only [operands, read, data, Option.getD_some]

theorem operands_of_operator {id : ExprId} {span : Span} {payload : PayloadId} {data : OperatorEntry}
    (read : b.expr? id = some { kind := .known .operator, span, payload })
    (stored : b.operators.get? payload = some data) :
    b.operands id = if data.left = 0 then [data.right] else [data.left, data.right] := by
  simp only [operands, read, stored]

/-! ## Parts are held -/

theorem Holds.operands {e : Expr} {id : ExprId} (h : b.Holds e id) : b.HoldsAll e.operands (b.operands id) := by
  cases e with
  | literal kind raw span =>
    obtain ⟨data, text, read, _⟩ := h
    rw [operands_of_leaf read (by decide), Expr.operands, HoldsAll]
  | name n =>
    obtain ⟨data, entry, read, _⟩ := h
    rw [operands_of_leaf read (by decide), Expr.operands, HoldsAll]
  | path segments =>
    obtain ⟨data, entries, read, _⟩ := h
    rw [operands_of_leaf read (by decide), Expr.operands, HoldsAll]
  | tuple elements span =>
    obtain ⟨data, ids, read, stored, all⟩ := h
    rwa [operands_of_tuple read stored]
  | unary op operand span =>
    obtain ⟨data, right, read, stored, ho⟩ := h
    rw [operands_of_operator read stored]
    exact ⟨right, [], rfl, ho, rfl⟩
  | binary op l r span =>
    obtain ⟨data, left, right, read, stored, hl, hr⟩ := h
    rw [operands_of_operator read stored, if_neg hl.ne_zero]
    exact ⟨left, [right], rfl, hl, right, [], rfl, hr, rfl⟩

theorem Holds.entry {e : Expr} {id : ExprId} (h : b.Holds e id) :
    ∃ payload, b.expr? id = some { kind := .known e.kind, span := e.span, payload } := by
  cases e with
  | literal kind raw span =>
    obtain ⟨data, _, read, _⟩ := h
    exact ⟨data, read⟩
  | name n =>
    obtain ⟨data, _, read, _⟩ := h
    exact ⟨data, read⟩
  | path segments =>
    obtain ⟨data, _, read, _⟩ := h
    exact ⟨data, read⟩
  | tuple elements span =>
    obtain ⟨data, _, read, _⟩ := h
    exact ⟨data, read⟩
  | unary op operand span =>
    obtain ⟨data, _, read, _⟩ := h
    exact ⟨data, read⟩
  | binary op l r span =>
    obtain ⟨data, _, _, read, _⟩ := h
    exact ⟨data, read⟩

theorem HoldsName.span {b : Builder} {n : Name} {entry : NameEntry} (h : b.HoldsName n entry) :
    entry.span = n.span := by
  cases n with
  | ident text span =>
    obtain ⟨id, rfl, _⟩ := h
    rfl
  | placeholder span =>
    cases h
    rfl

theorem exists_of_mem_paired {α β : Type} {R : α → β → Prop} {Paired : List α → List β → Prop}
    (nil : ∀ {ys}, Paired [] ys → ys = [])
    (cons : ∀ {x xs ys}, Paired (x :: xs) ys → ∃ y rest, ys = y :: rest ∧ R x y ∧ Paired xs rest)
    {xs : List α} {ys : List β} (h : Paired xs ys) {y : β} (member : y ∈ ys) : ∃ x ∈ xs, R x y := by
  induction xs generalizing ys with
  | nil =>
    cases nil h
    cases member
  | cons x xs ih =>
    obtain ⟨first, rest, rfl, hx, hxs⟩ := cons h
    cases member with
    | head => exact ⟨x, List.mem_cons_self, hx⟩
    | tail _ member =>
      obtain ⟨x', hx', holds⟩ := ih hxs member
      exact ⟨x', List.mem_cons_of_mem _ hx', holds⟩

theorem HoldsNames.exists_of_mem {ns : List Name} {entries : List NameEntry} (h : b.HoldsNames ns entries)
    {entry : NameEntry} (member : entry ∈ entries) : ∃ n ∈ ns, b.HoldsName n entry :=
  exists_of_mem_paired (fun h => h) (fun h => h) h member

theorem HoldsAll.exists_of_mem {es : List Expr} (h : b.HoldsAll es ids) {id : ExprId} (member : id ∈ ids) :
    ∃ e ∈ es, b.Holds e id :=
  exists_of_mem_paired (fun h => h) (fun h => h) h member

theorem HoldsNodes.exists_of_mem {ids : List NodeId} (h : b.HoldsNodes ss ids) {id : NodeId} (member : id ∈ ids) :
    ∃ s ∈ ss, b.HoldsNode s id :=
  exists_of_mem_paired (fun h => h) (fun h => h) h member

theorem HoldsNodes.length (held : b.HoldsNodes ss nodes) : nodes.length = ss.length := by
  induction ss generalizing nodes with
  | nil =>
    cases held
    rfl
  | cons s ss ih =>
    obtain ⟨id, rest, rfl, _, hss⟩ := held
    rw [List.length_cons, List.length_cons, ih hss]

theorem HoldsNodes.spans (held : b.HoldsNodes ss nodes) :
    (nodes.filterMap b.node?).map NodeEntry.span = ss.map Statement.span := by
  induction ss generalizing nodes with
  | nil =>
    cases held
    rfl
  | cons s ss ih =>
    obtain ⟨id, rest, rfl, ⟨stmt, node, _⟩, hss⟩ := held
    simp [node, ih hss]

theorem HoldsStatement.value {b : Builder} {s : Statement} {id : StmtId} {entry : StmtEntry}
    (h : b.HoldsStatement s id) (read : b.stmt? id = some entry) : b.Holds s.value entry.expr := by
  cases s with
  | expr value span =>
    obtain ⟨expr, found, he⟩ := h
    cases found.symm.trans read
    exact he
  | letIn n value span =>
    obtain ⟨expr, name, found, _, he⟩ := h
    cases found.symm.trans read
    exact he

theorem HoldsStatement.stmt?_span {s : Statement} {id : StmtId} (h : b.HoldsStatement s id) :
    ∃ entry, b.stmt? id = some entry ∧ entry.span = s.span := by
  cases s with
  | expr value span =>
    obtain ⟨expr, found, _⟩ := h
    exact ⟨_, found, rfl⟩
  | letIn n value span =>
    obtain ⟨expr, name, found, _⟩ := h
    exact ⟨_, found, rfl⟩

/-- The number of a part stands for a statement of the list, or for an expression of the class. -/
def HoldsPart (b : Builder) (ss : List Statement) (P : Expr → Prop) : Part → Prop
  | .node id => ∃ s ∈ ss, b.HoldsNode s id
  | .stmt id => ∃ s ∈ ss, b.HoldsStatement s id
  | .expr id => ∃ e, P e ∧ b.Holds e id

/-- What is reached from nodes around statements stands for a part of them. -/
theorem Reached.held (P : Expr → Prop) {b : Builder} {ss : List Statement} {nodes : List NodeId}
    (holds : b.HoldsNodes ss nodes) (values : ∀ s ∈ ss, P s.value) (inner : ∀ e, P e → ∀ c ∈ e.operands, P c)
    {way : List Nat} {part : Part} (h : b.Reached nodes way part) : b.HoldsPart ss P part := by
  induction h with
  | node found => exact holds.exists_of_mem (List.mem_of_getElem? found)
  | stmt _ read _ ih =>
    obtain ⟨s, hs, stmt, found, held⟩ := ih
    cases found.symm.trans read
    exact ⟨s, hs, held⟩
  | value _ read ih =>
    obtain ⟨s, hs, held⟩ := ih
    exact ⟨s.value, values s hs, held.value read⟩
  | operand _ found ih =>
    obtain ⟨e, he, held⟩ := ih
    obtain ⟨c, hc, part⟩ := held.operands.exists_of_mem (List.mem_of_getElem? found)
    exact ⟨c, inner e he c hc, part⟩

/-! ## Trees with numbers of their own -/

/-- What is below a list of expressions, with the way to it. -/
inductive Within (b : Builder) : List ExprId → List Nat → ExprId → Prop
  | root {ids : List ExprId} {i : Nat} {id : ExprId} : ids[i]? = some id → Within b ids [i] id
  | inside {ids : List ExprId} {i : Nat} {id x : ExprId} {way : List Nat} : ids[i]? = some id →
      Within b (b.operands id) way x → Within b ids (i :: way) x

theorem Within.operand {c : ExprId} {i : Nat} (h : b.Within ids way x) (found : (b.operands x)[i]? = some c) :
    b.Within ids (way ++ [i]) c := by
  induction h with
  | root start => exact .inside start (.root found)
  | inside start _ ih => exact .inside start (ih found)

theorem Within.cons_cases {first : ExprId} (h : b.Within (first :: ids) way x) :
    b.Within [first] way x ∨ ∃ i rest, way = (i + 1) :: rest ∧ b.Within ids (i :: rest) x := by
  cases h with
  | @root _ i _ found =>
    cases i with
    | zero => exact .inl (.root found)
    | succ i => exact .inr ⟨i, [], rfl, .root found⟩
  | @inside _ i _ _ way found inner =>
    cases i with
    | zero => exact .inl (.inside found inner)
    | succ i => exact .inr ⟨i, way, rfl, .inside found inner⟩

theorem Within.single_cases {id : ExprId} (h : b.Within [id] way x) :
    (way = [0] ∧ x = id) ∨ ∃ rest, way = 0 :: rest ∧ b.Within (b.operands id) rest x := by
  have only {i : Nat} {y : ExprId} (found : [id][i]? = some y) : i = 0 ∧ y = id := by
    cases i with
    | zero => exact ⟨rfl, (Option.some.inj found).symm⟩
    | succ i => cases found
  cases h with
  | root found =>
    obtain ⟨rfl, rfl⟩ := only found
    exact .inl ⟨rfl, rfl⟩
  | inside found inner =>
    obtain ⟨rfl, rfl⟩ := only found
    exact .inr ⟨_, rfl, inner⟩

/-- The trees below a list of expressions take up numbers of a class: operands have smaller numbers than the
expression around them, and there is one way to each number. -/
structure Forest (b : Builder) (own : Nat → Prop) (ids : List ExprId) : Prop where
  range : ∀ {way x}, b.Within ids way x → own x
  smaller : ∀ {way x}, b.Within ids way x → ∀ c ∈ b.operands x, c < x
  once : ∀ {way way' x}, b.Within ids way x → b.Within ids way' x → way = way'

namespace Forest

variable {b : Builder} {own other : Nat → Prop} {id : ExprId} {ids : List ExprId}

theorem mono (h : b.Forest own ids) (wider : ∀ x, own x → other x) : b.Forest other ids :=
  ⟨fun inside => wider _ (h.range inside), h.smaller, h.once⟩

theorem nil : b.Forest own [] := by
  have none {way : List Nat} {x : ExprId} (h : b.Within [] way x) : False := by
    cases h <;> simp at *
  exact ⟨fun h => (none h).elim, fun h => (none h).elim, fun h => (none h).elim⟩

theorem cons (first : b.Forest own [id]) (rest : b.Forest other ids) (apart : ∀ x, own x → ¬other x) :
    b.Forest (fun x => own x ∨ other x) (id :: ids) where
  range h := by
    rcases h.cons_cases with inFirst | ⟨i, way, _, inRest⟩
    · exact .inl (first.range inFirst)
    · exact .inr (rest.range inRest)
  smaller h := by
    rcases h.cons_cases with inFirst | ⟨i, way, _, inRest⟩
    · exact first.smaller inFirst
    · exact rest.smaller inRest
  once h h' := by
    rcases h.cons_cases with inFirst | ⟨i, way, same, inRest⟩
    · rcases h'.cons_cases with inFirst' | ⟨j, way', _, inRest'⟩
      · exact first.once inFirst inFirst'
      · exact absurd (rest.range inRest') (apart _ (first.range inFirst))
    · rcases h'.cons_cases with inFirst' | ⟨j, way', same', inRest'⟩
      · exact absurd (rest.range inRest) (apart _ (first.range inFirst'))
      · obtain ⟨rfl, rfl⟩ := List.cons.inj (rest.once inRest inRest')
        rw [same, same']

theorem single (inner : b.Forest own (b.operands id)) (above : ∀ x, own x → x < id) :
    b.Forest (fun x => own x ∨ x = id) [id] where
  range h := by
    rcases h.single_cases with ⟨_, rfl⟩ | ⟨way, _, below⟩
    · exact .inr rfl
    · exact .inl (inner.range below)
  smaller h := by
    rcases h.single_cases with ⟨_, rfl⟩ | ⟨way, _, below⟩
    · intro c member
      obtain ⟨i, found⟩ := List.getElem?_of_mem member
      exact above _ (inner.range (.root found))
    · exact inner.smaller below
  once h h' := by
    -- the way ends at the root only for the root's own number
    rcases h.single_cases with ⟨way, here⟩ | ⟨way, same, below⟩
    · rcases h'.single_cases with ⟨way', _⟩ | ⟨way', _, below'⟩
      · rw [way, way']
      · exact absurd here (Nat.ne_of_lt (above _ (inner.range below')))
    · rcases h'.single_cases with ⟨_, here⟩ | ⟨way', same', below'⟩
      · exact absurd here (Nat.ne_of_lt (above _ (inner.range below)))
      · rw [same, same', inner.once below below']

end Forest

/-! ## Numbers of what is put in -/

/-- The trees below the expressions take up numbers of a class, also when more is put in. -/
def Planted (b : Builder) (own : Nat → Prop) (ids : List ExprId) : Prop :=
  ∀ ⦃b' : Builder⦄, b.Extends b' → b'.Forest own ids

namespace Planted

variable {b b' : Builder} {own other : Nat → Prop} {id : ExprId} {ids : List ExprId}

theorem forest (h : b.Planted own ids) : b.Forest own ids := h (.refl b)

theorem mono (h : b.Planted own ids) (keeps : b.Extends b') : b'.Planted own ids :=
  fun _ later => h (keeps.trans later)

theorem widen (h : b.Planted own ids) (wider : ∀ x, own x → other x) : b.Planted other ids :=
  fun _ later => (h later).mono wider

theorem nil : b.Planted own [] := fun _ _ => .nil

theorem cons (first : b.Planted own [id]) (rest : b.Planted other ids) (apart : ∀ x, own x → ¬other x) :
    b.Planted (fun x => own x ∨ other x) (id :: ids) :=
  fun _ later => (first later).cons (rest later) apart

theorem around (inner : b.Planted own ids) (below : ∀ x, own x → x ≤ b.exprs.size) (keeps : b.Extends b')
    (next : id = b.exprs.size + 1) (reads : ∀ ⦃c : Builder⦄, b'.Extends c → c.operands id = ids) :
    b'.Planted (fun x => own x ∨ x = id) [id] := by
  intro c later
  have trees := inner (keeps.trans later)
  rw [← reads later] at trees
  exact trees.single fun x mine => next ▸ Nat.lt_succ_of_le (below x mine)

theorem leaf (keeps : b.Extends b') (next : id = b.exprs.size + 1)
    (reads : ∀ ⦃c : Builder⦄, b'.Extends c → c.operands id = []) : b'.Planted (· = b.exprs.size + 1) [id] := by
  have inner : b.Planted (fun _ => False) [] := .nil
  have new := inner.around (fun _ => False.elim) keeps next reads
  exact new.widen fun x mine => (mine.resolve_left not_false).trans next

end Planted

/-- The numbers behind `low` and up to `high`. -/
def Between (low high x : Nat) : Prop := low < x ∧ x ≤ high

theorem newLiteral_planted (b : Builder) (kind : Tag LiteralKind) (raw : StringId) (span : Span) :
    (b.newLiteral kind raw span).2.Planted (· = b.exprs.size + 1) [(b.newLiteral kind raw span).1] :=
  .leaf (b.newLiteral_grown kind raw span).keeps rfl fun _ later =>
    operands_of_leaf (later.exprs (Arena.get?_alloc ..)) (by decide)

theorem newName_planted (b : Builder) (entry : NameEntry) :
    (b.newName entry).2.Planted (· = b.exprs.size + 1) [(b.newName entry).1] :=
  .leaf (b.newName_grown entry).keeps rfl fun _ later =>
    operands_of_leaf (later.exprs (Arena.get?_alloc ..)) (by decide)

theorem newPath_planted (b : Builder) (segments : List NameEntry) :
    (b.newPath segments).2.Planted (· = b.exprs.size + 1) [(b.newPath segments).1] :=
  .leaf (b.newPath_grown segments).keeps rfl fun _ later =>
    operands_of_leaf (later.exprs (Arena.get?_alloc ..)) (by decide)

theorem newTuple_planted {own : Nat → Prop} (inner : b.Planted own ids) (below : ∀ x, own x → x ≤ b.exprs.size)
    (span : Span) : (b.newTuple ids span).2.Planted (fun x => own x ∨ x = b.exprs.size + 1) [(b.newTuple ids span).1] :=
  inner.around below (b.newTuple_grown ids span).keeps rfl fun _ later =>
    operands_of_tuple (later.exprs (Arena.get?_alloc ..)) (later.tuples (Arena.get?_alloc ..))

theorem newOperator_planted {own : Nat → Prop} (data : OperatorEntry)
    (inner : b.Planted own (if data.left = 0 then [data.right] else [data.left, data.right]))
    (below : ∀ x, own x → x ≤ b.exprs.size) (span : Span) :
    (b.newOperator data span).2.Planted (fun x => own x ∨ x = b.exprs.size + 1) [(b.newOperator data span).1] :=
  inner.around below (b.newOperator_grown data span).keeps rfl fun _ later =>
    operands_of_operator (later.exprs (Arena.get?_alloc ..)) (later.operators (Arena.get?_alloc ..))

/-! ## Numbers of nodes and statements -/

/-- The statement that a node is around. -/
def stmtOf (b : Builder) (id : NodeId) : StmtId := ((b.node? id).map NodeEntry.stmt).getD 0

/-- The value of the statement that a node is around. -/
def valueOf (b : Builder) (id : NodeId) : ExprId := ((b.stmt? (b.stmtOf id)).map StmtEntry.expr).getD 0

theorem stmtOf_eq {id : NodeId} {n : NodeEntry} (found : b.node? id = some n) : b.stmtOf id = n.stmt := by
  rw [stmtOf, found, Option.map_some, Option.getD_some]

theorem valueOf_eq {id : NodeId} {s : StmtEntry} (found : b.stmt? (b.stmtOf id) = some s) : b.valueOf id = s.expr := by
  rw [valueOf, found, Option.map_some, Option.getD_some]

/-- The way leads to the part by the numbers of nodes, of their statements or of the values of these. -/
def LeadsTo (b : Builder) (nodes : List NodeId) (way : List Nat) : Part → Prop
  | .node id => ∃ i, way = [i] ∧ nodes[i]? = some id
  | .stmt id => ∃ i, way = [i] ∧ (nodes.map b.stmtOf)[i]? = some id
  | .expr id => b.Within (nodes.map b.valueOf) way id

theorem Reached.leadsTo {part : Part} (h : b.Reached nodes way part) : b.LeadsTo nodes way part := by
  induction h with
  | @node i id found => exact ⟨i, rfl, found⟩
  | stmt _ read _ ih =>
    obtain ⟨i, rfl, found⟩ := ih
    exact ⟨i, rfl, by simp [found, stmtOf, read]⟩
  | value _ read ih =>
    obtain ⟨i, rfl, found⟩ := ih
    rw [List.getElem?_map] at found
    obtain ⟨id, there, rfl⟩ := Option.map_eq_some_iff.1 found
    exact .root (by simp [there, valueOf, read])
  | operand _ found ih => exact Within.operand ih found

theorem size_le_of_extends {α : Type} {a a' : Arena α} (h : a.Extends a') : a.size ≤ a'.size := by
  cases size : a.size with
  | zero => exact Nat.zero_le _
  | succ n =>
    have last : n < a.items.size := Nat.lt_of_lt_of_eq (Nat.lt_succ_self n) size.symm
    have kept : a'.items[n]? = some a.items[n] := @h (n + 1) _ (Array.getElem?_eq_getElem last)
    exact (Array.getElem?_eq_some_iff.1 kept).1

theorem pairwise_cons_of_le {low mid id : Nat} {ids : List Nat} (h : (mid :: ids).Pairwise (· < ·)) (lower : low < id)
    (upper : id ≤ mid) : (low :: id :: ids).Pairwise (· < ·) := by
  obtain ⟨above, rest⟩ := List.pairwise_cons.1 h
  have behind : ∀ x ∈ ids, id < x := fun x hx => Nat.lt_of_le_of_lt upper (above x hx)
  refine .cons (List.forall_mem_cons.2 ⟨lower, fun x hx => ?_⟩) (.cons behind rest)
  exact Nat.lt_trans lower (behind x hx)

theorem index_unique {low i j x : Nat} {ids : List Nat} (h : (low :: ids).Pairwise (· < ·)) (hi : ids[i]? = some x)
    (hj : ids[j]? = some x) : i = j := by
  have distinct : ids.Nodup := (List.pairwise_cons.1 h).2.imp Nat.ne_of_lt
  exact (List.getElem?_inj (List.getElem?_eq_some_iff.1 hi).1 distinct).1 (hi.trans hj.symm)

end LetStack.Ast.Builder
