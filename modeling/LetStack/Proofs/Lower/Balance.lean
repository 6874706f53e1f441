import LetStack.Proofs.Lower.Simulation

/-!
The contexts that walks lead to. The names bound are those that the program stores, every name is stored before it is
loaded, and the stack is empty behind every statement (`context_of_walks_consistent`). `Instr.effect?` counts the
values that an instruction takes and gives, so this holds of trees put together by hand as well.
-/

namespace LetStack

/-! ## Stack depth -/

namespace Machine

/-- How many values an instruction takes from the stack and how many it puts there. -/
def Instr.effect? (i : Instr) : Option (Nat × Nat) :=
  match i.op with
  | .pushInt | .pushDec | .pushBool | .pushChar | .pushStr | .load => some (0, 1)
  | .store | .pop => some (1, 0)
  | .unary => some (1, 1)
  | .binary => some (2, 1)
  | .tuple => some (i.count.toNat, 1)
  | .unknown _ => none

/-- The depth of the stack behind the code; none where an instruction finds too few values. -/
def depthAfter : List Instr → Nat → Option Nat
  | [], depth => some depth
  | i :: code, depth =>
    match i.effect? with
    | none => none
    | some (takes, gives) => if takes ≤ depth then depthAfter code (depth - takes + gives) else none

theorem depthAfter_append (code more : List Instr) (depth : Nat) :
    depthAfter (code ++ more) depth = (depthAfter code depth).bind (depthAfter more) := by
  induction code generalizing depth with
  | nil => rfl
  | cons i code ih =>
    rw [List.cons_append, depthAfter, depthAfter]
    cases i.effect? with
    | none => rfl
    | some effect =>
      simp only [ih]
      split <;> rfl

theorem depthAfter_single {i : Instr} {takes gives : Nat} (h : i.effect? = some (takes, gives))
    (depth : Nat) : depthAfter [i] (depth + takes) = some (depth + gives) := by
  simp [depthAfter, h]

theorem Instr.effect?_of_constant? {i : Instr} {k : Constant} (h : i.constant? = some k) :
    i.effect? = some (0, 1) ∧ i.op ≠ .load := by
  cases hop : i.op with
  | pushInt | pushDec | pushBool | pushChar | pushStr => simp [effect?, hop]
  | _ => simp [constant?, hop] at h

/-- The program stores a value under the name. -/
def Stores (code : List Instr) (name : Bytes) : Prop := ∃ i ∈ code, i.op = .store ∧ i.str = name

theorem stores_append {code more : List Instr} {name : Bytes} :
    Stores (code ++ more) name ↔ Stores code name ∨ Stores more name := by
  constructor
  · rintro ⟨i, hi, stores⟩
    rcases List.mem_append.1 hi with hi | hi
    · exact .inl ⟨i, hi, stores⟩
    · exact .inr ⟨i, hi, stores⟩
  · rintro (⟨i, hi, stores⟩ | ⟨i, hi, stores⟩)
    · exact ⟨i, List.mem_append_left _ hi, stores⟩
    · exact ⟨i, List.mem_append_right _ hi, stores⟩

end Machine

namespace Lower
open Ast Machine

/-! ## The code of expressions -/

/-- The code leaves `n` values more on the stack, loads only names of the scope, and neither stores nor
drops a value. -/
structure Pushes (scope : Scope) (n : Nat) (code : List Instr) : Prop where
  depth : ∀ below, depthAfter code below = some (below + n)
  loads : ∀ i ∈ code, i.op = .load → i.str ∈ scope
  keeps : ∀ i ∈ code, i.op ≠ .store ∧ i.op ≠ .pop

variable {scope : Scope} {n m : Nat} {code more : List Instr}

theorem pushes_nil : Pushes scope 0 [] := ⟨fun _ => rfl, nofun, nofun⟩

theorem Pushes.append (first : Pushes scope n code) (second : Pushes scope m more) :
    Pushes scope (n + m) (code ++ more) where
  depth below := by
    rw [depthAfter_append, first.depth, Option.bind_some, second.depth, Nat.add_assoc]
  loads i hi := by
    rcases List.mem_append.1 hi with hi | hi
    · exact first.loads i hi
    · exact second.loads i hi
  keeps i hi := by
    rcases List.mem_append.1 hi with hi | hi
    · exact first.keeps i hi
    · exact second.keeps i hi

theorem Pushes.into (operands : Pushes scope n code) {i : Instr} (effect : i.effect? = some (n, 1))
    (known : i.op = .load → i.str ∈ scope) : Pushes scope 1 (code ++ [i]) where
  depth below := by
    rw [depthAfter_append, operands.depth, Option.bind_some, depthAfter_single effect]
  loads j hj := by
    rcases List.mem_append.1 hj with hj | hj
    · exact operands.loads j hj
    · cases List.mem_singleton.1 hj
      exact known
  keeps j hj := by
    rcases List.mem_append.1 hj with hj | hj
    · exact operands.keeps j hj
    · cases List.mem_singleton.1 hj
      constructor <;> intro hop <;> simp [Instr.effect?, hop] at effect

/-- The expressions that an expression is lowered through, itself included. -/
inductive Part (b : Builder) : ExprId → ExprId → Prop
  | self {id : ExprId} : Part b id id
  | element {id child part : ExprId} {e : ExprEntry} {elements : List ExprId} :
      b.expr? id = some e → e.kind = .known .tuple → Builder.payload b.tuples e = .ok elements →
      child ∈ elements → Part b child part → Part b id part
  | operand {id child part : ExprId} {e : ExprEntry} {data : OperatorEntry} :
      b.expr? id = some e → e.kind = .known .operator → Builder.payload b.operators e = .ok data →
      (child = data.right ∨ data.op.isUnary = false ∧ child = data.left) → Part b child part →
      Part b id part

/-- The tuples in an expression have fewer elements than a bound. -/
def TuplesBelow (b : Builder) (bound : Nat) (id : ExprId) : Prop :=
  ∀ part, Part b id part → ∀ e elements, b.expr? part = some e → e.kind = .known .tuple →
    Builder.payload b.tuples e = .ok elements → elements.length < bound

theorem tuplesBelow_of_arena {b : Builder} {bound : Nat} (short : ∀ elements ∈ b.tuples.items, elements.length < bound)
    (id : ExprId) : TuplesBelow b bound id := by
  intro part _ e elements _ _ payload
  cases number : e.payload with
  | zero => simp [Builder.payload, number, Arena.get?] at payload
  | succ n =>
    rw [Builder.payload, number, Arena.get?] at payload
    cases entry : b.tuples.items[n]? with
    | none => simp [entry] at payload
    | some _ =>
      simp only [entry, Except.ok.injEq] at payload
      exact payload ▸ short _ (Array.mem_of_getElem? entry)

theorem Lowered.ofData_eq_done {α : Type} {data : Except Defect α} {f : α → Lowered}
    (done : (Lowered.ofData data f).outcome = .done) :
    ∃ a, data = .ok a ∧ Lowered.ofData data f = f a ∧ (f a).outcome = .done := by
  cases data with
  | error d => cases done
  | ok a => exact ⟨a, rfl, rfl, done⟩

theorem lowerLiteral_pushes {kind : Tag LiteralKind} {raw : Bytes} {span : Span}
    (done : (lowerLiteral kind raw span).outcome = .done) :
    Pushes scope 1 (lowerLiteral kind raw span).code := by
  cases kind with
  | unknown number => cases done
  | known kind =>
    rw [lowerLiteral_eq] at done ⊢
    unfold Lowered.ofInstr at done ⊢
    split at done
    · next i pushed =>
      obtain ⟨k, _, constant⟩ := constant?_of_literalInstr pushed
      obtain ⟨effect, notLoad⟩ := Instr.effect?_of_constant? constant
      exact pushes_nil.into (i := { i with line := span.line }) effect fun load => absurd load notLoad
    · cases done

theorem lowerName_pushes {b : Builder} {name : NameEntry} {span : Span}
    (done : (lowerName b scope name span).outcome = .done) :
    Pushes scope 1 (lowerName b scope name span).code := by
  unfold lowerName at done ⊢
  split at done
  · cases done
  · obtain ⟨text, _, lowered, done⟩ := Lowered.ofData_eq_done done
    simp only [lowered] at done ⊢
    split at done
    · next bound =>
      rw [if_pos bound]
      exact pushes_nil.into rfl fun _ => List.contains_iff_mem.1 bound
    · cases done
  · cases done

theorem all_pushes {pieces : List Lowered} (done : (Lowered.all pieces).outcome = .done)
    (each : ∀ p ∈ pieces, p.outcome = .done → Pushes scope 1 p.code) :
    Pushes scope pieces.length (Lowered.all pieces).code := by
  induction pieces with
  | nil => exact pushes_nil
  | cons p pieces ih =>
    obtain ⟨head, tail⟩ := Lowered.andThen_eq_done.1 done
    rw [Lowered.all, Lowered.code_andThen head, List.length_cons, Nat.add_comm]
    exact (each p (.head _) head).append (ih tail fun q hq => each q (.tail _ hq))

/-- The code of an expression leaves its value on the stack. -/
theorem lowerExpr_pushes {b : Builder} : ∀ {depth : Nat} {id : ExprId}, TuplesBelow b (2 ^ 32) id →
    (lowerExpr b scope depth id).outcome = .done → Pushes scope 1 (lowerExpr b scope depth id).code
  | 0, _, _, done => by cases done
  | depth + 1, id, short, done => by
    rw [lowerExpr] at done ⊢
    cases found : b.expr? id with
    | none =>
      simp only [found] at done
      cases done
    | some e =>
      simp only [found] at done ⊢
      cases kind : e.kind with
      | unknown number =>
        simp only [kind] at done
        cases done
      | known known =>
        cases known with
        | literal =>
          simp only [kind] at done ⊢
          obtain ⟨data, _, lowered, done⟩ := Lowered.ofData_eq_done done
          rw [lowered]
          obtain ⟨raw, _, lowered, done⟩ := Lowered.ofData_eq_done done
          rw [lowered]
          exact lowerLiteral_pushes done
        | name =>
          simp only [kind] at done ⊢
          obtain ⟨name, _, lowered, done⟩ := Lowered.ofData_eq_done done
          rw [lowered]
          exact lowerName_pushes done
        | tuple =>
          simp only [kind] at done ⊢
          obtain ⟨elements, payload, lowered, done⟩ := Lowered.ofData_eq_done done
          rw [lowered]
          have parts := (Lowered.andThen_eq_done.1 done).1
          have each : ∀ p ∈ elements.map (lowerExpr b scope depth), p.outcome = .done → Pushes scope 1 p.code := by
            intro p hp done
            obtain ⟨child, hchild, rfl⟩ := List.mem_map.1 hp
            exact lowerExpr_pushes (fun part inside => short part (.element found kind payload hchild inside)) done
          have pushed := all_pushes parts each
          rw [List.length_map] at pushed
          rw [Lowered.code_andThen parts]
          refine pushed.into ?_ (by rintro ⟨⟩)
          have fits := short id .self e elements found kind payload
          simp [Instr.effect?, UInt32.toNat_ofNat_of_lt' fits]
        | operator =>
          simp only [kind] at done ⊢
          obtain ⟨data, payload, lowered, done⟩ := Lowered.ofData_eq_done done
          rw [lowered]
          obtain ⟨isMin, _, lowered, done⟩ := Lowered.ofData_eq_done done
          rw [lowered]
          have operand {child : ExprId} (hchild : child = data.right ∨ data.op.isUnary = false ∧ child = data.left) :
              TuplesBelow b (2 ^ 32) child :=
            fun part inside => short part (.operand found kind payload hchild inside)
          split at done
          · next least =>
            rw [if_pos least]
            exact pushes_nil.into rfl (by rintro ⟨⟩)
          · next least =>
            rw [if_neg least]
            split at done
            · next isUnary =>
              have part := (Lowered.andThen_eq_done.1 done).1
              rw [if_pos isUnary, Lowered.code_andThen part]
              exact (lowerExpr_pushes (operand (.inl rfl)) part).into rfl (by rintro ⟨⟩)
            · next isBinary =>
              have operands := (Lowered.andThen_eq_done.1 done).1
              obtain ⟨first, second⟩ := Lowered.andThen_eq_done.1 operands
              rw [if_neg isBinary, Lowered.code_andThen operands, Lowered.code_andThen first]
              have left := lowerExpr_pushes (operand (.inr ⟨Bool.eq_false_iff.2 isBinary, rfl⟩)) first
              have right := lowerExpr_pushes (operand (.inl rfl)) second
              exact (left.append right).into rfl (by rintro ⟨⟩)
        | matchOf | closure | path | array | init | ifElse =>
          simp only [kind] at done
          cases done

/-! ## The code of statements -/

/-- The code of a statement: a value, and what takes it from the stack again. The value is dropped, or it
is stored under the name that the statement binds. -/
inductive TakesValue (scope : Scope) (s : LoweredStmt) : Prop
  | drops {value : List Instr} {i : Instr} (code : s.lowered.code = value ++ [i]) (pushed : Pushes scope 1 value)
      (pop : i.op = .pop) (binds : s.binds = none)
  | stores {value : List Instr} {i : Instr} {text : Bytes} (code : s.lowered.code = value ++ [i])
      (pushed : Pushes scope 1 value) (store : i.op = .store) (name : i.str = Scope.key text)
      (binds : s.binds = some (Scope.key text)) (stable : Scope.key (Scope.key text) = Scope.key text)

/-- What is asked of the statements of a tree: their tuples can be counted in 32 bits, and the name that
one binds stays as it is when it is normalized once more. -/
structure Measured (b : Builder) (s : StmtEntry) : Prop where
  tuples : TuplesBelow b (2 ^ 32) s.expr
  name : s.kind = .known .letIn → ∀ text, b.nameText s.name = .ok text →
    Scope.key (Scope.key text) = Scope.key text

theorem lowerStmt_takesValue {b : Builder} {id : StmtId} (measured : ∀ s, b.stmt? id = some s → Measured b s)
    (done : (lowerStmt b scope id).lowered.outcome = .done) : TakesValue scope (lowerStmt b scope id) := by
  rw [lowerStmt] at done ⊢
  cases found : b.stmt? id with
  | none =>
    simp only [found] at done
    cases done
  | some s =>
    obtain ⟨tuples, stable⟩ := measured s found
    have drops (done : ((lowerExpr b scope b.depthBound s.expr).andThen
          (.emit { op := .pop } s.span)).outcome = .done) :
        TakesValue scope ⟨(lowerExpr b scope b.depthBound s.expr).andThen (.emit { op := .pop } s.span), none⟩ := by
      have value := (Lowered.andThen_eq_done.1 done).1
      exact .drops (Lowered.code_andThen value) (lowerExpr_pushes tuples value) rfl rfl
    simp only [found] at done ⊢
    cases kind : s.kind with
    | unknown number =>
      simp only [kind] at done
      cases done
    | known known =>
      cases known with
      | expr =>
        simp only [kind] at done
        exact drops done
      | letIn =>
        simp only [kind] at done ⊢
        by_cases placeholder : s.name.kind = .known .placeholder
        · simp only [if_pos placeholder] at done ⊢
          exact drops done
        · simp only [if_neg placeholder] at done ⊢
          cases name : b.nameText s.name with
          | error d =>
            simp only [name] at done
            cases (Lowered.andThen_eq_done.1 done).2
          | ok text =>
            simp only [name] at done
            have value := (Lowered.andThen_eq_done.1 done).1
            exact .stores (Lowered.code_andThen value) (lowerExpr_pushes tuples value) rfl rfl rfl
              (stable kind text name)

def nodeStatement? (b : Builder) (id : NodeId) : Option StmtEntry :=
  (b.node? id).bind fun n => b.stmt? n.stmt

theorem lowerNode_takesValue {b : Builder} {id : NodeId}
    (measured : ∀ s, nodeStatement? b id = some s → Measured b s)
    (done : (lowerNode b scope id).lowered.outcome = .done) : TakesValue scope (lowerNode b scope id) := by
  rw [lowerNode] at done ⊢
  cases found : b.node? id with
  | none =>
    simp only [found] at done
    cases done
  | some node =>
    simp only [nodeStatement?, found, Option.bind_some] at measured
    simp only [found] at done ⊢
    cases kind : node.kind with
    | unknown number =>
      simp only [kind] at done
      cases done
    | known known =>
      cases known with
      | directive =>
        simp only [kind] at done
        cases done
      | statement =>
        simp only [kind] at done
        exact lowerStmt_takesValue measured done

/-! ## Consistent contexts -/

/-- The names, the loads and the stack of a context. -/
structure Consistent (c : Context) : Prop where
  /-- Bound are the names that are stored. -/
  bound : ∀ name, name ∈ c.scope ↔ Stores c.program.instrs name
  /-- What is loaded has been stored before. -/
  loads : ∀ n i, c.program.instrs[n]? = some i → i.op = .load → Stores (c.program.instrs.take n) i.str
  /-- No instruction finds too few values, and none is left at the end. -/
  ends : depthAfter c.program.instrs 0 = some 0
  /-- The stack is empty behind every statement. -/
  between : ∀ n i, c.program.instrs[n]? = some i → i.op = .store ∨ i.op = .pop →
    depthAfter (c.program.instrs.take (n + 1)) 0 = some 0

theorem Consistent.start (source : Bytes) (limit : Int) :
    Consistent { program := { source }, bag := .ofLimit limit } where
  bound name := by simp [Stores]
  loads n i h := by simp at h
  ends := rfl
  between n i h := by simp at h

theorem Pushes.not_stores (h : Pushes scope n code) (name : Bytes) : ¬ Stores code name := by
  rintro ⟨i, hi, store, _⟩
  exact (h.keeps i hi).1 store

/-- Loads and the stack go on behind consistent code: a value and the instruction that takes it. -/
theorem Consistent.append {c c' : Context} {value : List Instr} {i : Instr} (consistent : Consistent c)
    (instrs : c'.program.instrs = c.program.instrs ++ (value ++ [i])) (pushed : Pushes c.scope 1 value)
    (takes : i.op = .store ∨ i.op = .pop)
    (bound : ∀ name, name ∈ c'.scope ↔ name ∈ c.scope ∨ Stores [i] name) : Consistent c' := by
  have effect : i.effect? = some (1, 0) := by rcases takes with op | op <;> simp [Instr.effect?, op]
  have ends : depthAfter c'.program.instrs 0 = some 0 := by
    rw [instrs, depthAfter_append, consistent.ends, Option.bind_some, depthAfter_append, pushed.depth,
      Option.bind_some, depthAfter_single effect]
  -- an instruction is one of the old ones, one of the value, or the last
  have place {n : Nat} {j : Instr} (hj : c'.program.instrs[n]? = some j) :
      n < c.program.instrs.length ∧ c.program.instrs[n]? = some j ∨
        c.program.instrs.length ≤ n ∧ (j ∈ value ∨ j = i ∧ n + 1 = c'.program.instrs.length) := by
    rw [instrs] at hj ⊢
    rcases Nat.lt_or_ge n c.program.instrs.length with old | new
    · rw [List.getElem?_append_left old] at hj
      exact .inl ⟨old, hj⟩
    · rw [List.getElem?_append_right new] at hj
      refine .inr ⟨new, ?_⟩
      rcases Nat.lt_or_ge (n - c.program.instrs.length) value.length with inside | last
      · rw [List.getElem?_append_left inside] at hj
        exact .inl (List.mem_of_getElem? hj)
      · rw [List.getElem?_append_right last] at hj
        obtain ⟨at_, rfl⟩ := List.getElem?_eq_some_iff.1 hj
        simp only [List.length_append, List.length_singleton] at at_ ⊢
        exact .inr ⟨by simp, by omega⟩
  refine ⟨fun name => ?_, fun n j hj load => ?_, ends, fun n j hj closes => ?_⟩
  · rw [bound, consistent.bound, instrs, stores_append, stores_append]
    simp [pushed.not_stores]
  · rcases place hj with ⟨old, hj⟩ | ⟨new, inside | ⟨rfl, _⟩⟩
    · rw [instrs, List.take_append_of_le_length (Nat.le_of_lt old)]
      exact consistent.loads n j hj load
    · have stored := (consistent.bound j.str).1 (pushed.loads j inside load)
      rw [instrs, List.take_append, List.take_of_length_le new, stores_append]
      exact .inl stored
    · rcases takes with op | op <;> simp [op] at load
  · rcases place hj with ⟨old, hj⟩ | ⟨_, inside | ⟨_, last⟩⟩
    · rw [instrs, List.take_append_of_le_length old]
      exact consistent.between n j hj closes
    · have ⟨notStore, notPop⟩ := pushed.keeps j inside
      rcases closes with op | op
      · exact absurd op notStore
      · exact absurd op notPop
    · rw [last, List.take_length]
      exact ends

theorem Consistent.commit {c : Context} {s : LoweredStmt} (consistent : Consistent c)
    (takes : TakesValue c.scope s) : Consistent (c.commit s) := by
  cases takes with
  | @drops value i code pushed pop binds =>
    have instrs : (c.commit s).program.instrs = c.program.instrs ++ (value ++ [i]) := by
      rw [Context.commit_instrs, code]
    refine consistent.append instrs pushed (.inr pop) fun name => ?_
    simp [Context.commit, binds, Stores, pop]
  | @stores value i text code pushed store name binds stable =>
    have instrs : (c.commit s).program.instrs = c.program.instrs ++ (value ++ [i]) := by
      rw [Context.commit_instrs, code]
    refine consistent.append instrs pushed (.inl store) fun other => ?_
    simp [Context.commit, binds, Scope.bind, Scope.mem_bindBy stable, Stores, store, name, eq_comm]

theorem Consistent.failed {c : Context} (consistent : Consistent c) (opts : Options) (s : LoweredStmt)
    (f : Fault) : Consistent (c.failed opts s f) := by
  obtain ⟨bound, loads, ends, between⟩ := consistent
  rw [← Context.failed_instrs c opts s f] at bound loads ends between
  exact ⟨bound, loads, ends, between⟩

theorem Walked.consistent {opts : Options} {b : Builder} {c c' : Context} {ids : List NodeId}
    {reports : List (Option Fault)} (run : Walked opts b c ids reports c') (consistent : Consistent c)
    (measured : ∀ id ∈ ids, ∀ s, nodeStatement? b id = some s → Measured b s) : Consistent c' := by
  induction run with
  | nil => exact consistent
  | done out _ ih =>
    exact ih (consistent.commit (lowerNode_takesValue (measured _ (.head _)) out))
      fun id hid => measured id (.tail _ hid)
  | fault out _ ih => exact ih (consistent.failed ..) fun id hid => measured id (.tail _ hid)

/-- The contexts that walks lead to, from a fresh one: any modules of any trees, strict or not. -/
inductive Reached : Context → Prop
  | start (source : Bytes) (limit : Int) : Reached { program := { source }, bag := .ofLimit limit }
  | walk {c : Context} (opts : Options) (b : Builder) (id : ModuleId) (before : Reached c)
      (unbroken : ∀ d, (walkModule opts b c id).ending ≠ .broken d)
      (measured : ∀ m, b.module? id = some m → ∀ node ∈ m.nodes, ∀ s, nodeStatement? b node = some s →
        Measured b s) : Reached (walkModule opts b c id).context

/-- Whatever modules have been walked over, the context binds the names that its program stores, every
name is stored before it is loaded, and no instruction finds too few values on a stack that is empty
behind every statement. -/
theorem context_of_walks_consistent {c : Context} (reached : Reached c) : Consistent c := by
  induction reached with
  | start source limit => exact .start source limit
  | @walk c opts b id _ unbroken measured consistent =>
    cases found : b.module? id with
    | none =>
      rw [walkModule, found]
      exact consistent
    | some m =>
      rw [walkModule_eq found] at unbroken ⊢
      obtain ⟨walked, rest, nodes, run, _⟩ := walkNodes_cases unbroken
      refine run.consistent consistent fun node hnode => measured m found node ?_
      rw [nodes]
      exact List.mem_append_left _ hnode

/-- `let a = (1, 2); a; _; a.b;`. -/
private def namedPair : Except Grammar.Failure ModuleId × Builder :=
  Grammar.buildModule {}
    [{ kind := .kwLet }, { kind := .ident, text := [0x61] }, { kind := .assign }, { kind := .lParen },
     { kind := .intLit, text := [0x31] }, { kind := .comma }, { kind := .intLit, text := [0x32] }, { kind := .rParen },
     { kind := .semicolon }, { kind := .ident, text := [0x61] }, { kind := .semicolon }, { kind := .placeholder },
     { kind := .semicolon }, { kind := .ident, text := [0x61] }, { kind := .dot }, { kind := .ident, text := [0x62] },
     { kind := .semicolon }]

/-- A tolerant walk over the module and then a strict one, where `a` is bound already. -/
theorem named_pair_walked_twice :
    let once := (walkModule {} namedPair.2 {} 1).context
    let twice := (walkModule { strict := true } namedPair.2 once 1).context
    twice.scope = [[0x61]] ∧ twice.program.length = 12 ∧ Consistent twice := by
  intro once twice
  have nodes : (namedPair.2.module? 1).map (·.nodes) = some [1, 2, 3, 4] := by decide +kernel
  have stable : ∀ node ∈ [1, 2, 3, 4], ∀ s ∈ nodeStatement? namedPair.2 node,
      (namedPair.2.nameText s.name).toOption.all fun text => Scope.key (Scope.key text) = Scope.key text := by
    decide +kernel
  have measured : ∀ m, namedPair.2.module? 1 = some m → ∀ node ∈ m.nodes, ∀ s,
      nodeStatement? namedPair.2 node = some s → Measured namedPair.2 s := by
    intro m found node hnode s hs
    simp only [found, Option.map_some, Option.some.injEq] at nodes
    refine ⟨tuplesBelow_of_arena (by decide +kernel) s.expr, fun _ text name => ?_⟩
    simpa [name, Except.toOption] using stable node (nodes ▸ hnode) s hs
  have finished : (walkModule {} namedPair.2 {} 1).ending = .finished := by decide +kernel
  have aborted : (walkModule { strict := true } namedPair.2 once 1).ending.message?.isSome := by decide +kernel
  have reached : Reached once := .walk _ _ _ (.start [] 0) (by simp [finished]) measured
  have reached : Reached twice := by
    refine .walk _ _ _ reached (fun d broken => ?_) measured
    rw [broken] at aborted
    cases aborted
  exact ⟨by decide +kernel, by decide +kernel, context_of_walks_consistent reached⟩

end Lower

end LetStack
