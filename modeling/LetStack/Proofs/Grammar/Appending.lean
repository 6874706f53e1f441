import LetStack.Grammar.Building
import LetStack.Proofs.Ast.Trees
import LetStack.Proofs.Grammar.Spans

/-!
`Building` rules only append to the builder. `Builds` compares one with the rule of `Rule` that yields trees: both
fail alike or read the same tokens, the builder keeps what it had, and the number stands for the tree by entries that
are new. With one law for each combinator (`node_builds`, `expr_builds`), `buildModule` fails exactly as `parseModule`
does and otherwise puts in the statements that it yields (`buildModule_cases`).
-/

namespace LetStack.Grammar.Building
open Ast
open Ast.Builder (AddedExpr AddedStatement AddedNode Between Consecutive)

variable {α β γ δ : Type}

/-! ## What values stand for -/

/-- How the values of a rule that works on a builder stand for trees: what was put in between two builders. It was also
put in between an earlier and a later one. -/
structure Standing (α β : Type) where
  Stands : Builder → Builder → α → β → Prop
  widen : ∀ {a a' b b' : Builder} {x : α} {v : β}, Stands a b x v → a'.Extends a → b.Extends b' → Stands a' b' x v

namespace Standing

/-- Values that are not in the builder stand for themselves. -/
def same (α : Type) : Standing α α := ⟨fun _ _ x v => x = v, fun equal _ _ => equal⟩

/-- The second value was put in behind the first. -/
def pair (S : Standing α β) (T : Standing γ δ) : Standing (α × γ) (β × δ) where
  Stands a b x v := ∃ mid, a.Extends mid ∧ mid.Extends b ∧ S.Stands a mid x.1 v.1 ∧ T.Stands mid b x.2 v.2
  widen := by
    rintro a a' b b' x v ⟨mid, front, behind, first, second⟩ before later
    exact ⟨mid, before.trans front, behind.trans later, S.widen first before (.refl _), T.widen second (.refl _) later⟩

def list (S : Standing α β) : Standing (List α) (List β) where
  Stands := Consecutive S.Stands
  widen all := all.widen S.widen

def option (S : Standing α β) : Standing (Option α) (Option β) where
  Stands a b := Option.Rel (S.Stands a b)
  widen
    | .none, _, _ => .none
    | .some stands, before, later => .some (S.widen stands before later)

def name : Standing Name NameEntry := ⟨fun _ b => b.HoldsName, fun held _ later => held.mono later⟩
def expr : Standing Expr ExprId := ⟨AddedExpr, AddedExpr.widen⟩
def stmt : Standing Statement StmtId := ⟨AddedStatement, AddedStatement.widen⟩
def node : Standing Statement NodeId := ⟨AddedNode, AddedNode.widen⟩

variable {S : Standing α β} {T : Standing γ δ} {a b : Builder}

theorem fst {x : α × γ} {v : β × δ} (both : (S.pair T).Stands a b x v) : S.Stands a b x.1 v.1 := by
  obtain ⟨mid, _, behind, first, _⟩ := both
  exact S.widen first (.refl _) behind

theorem snd {x : α × γ} {v : β × δ} (both : (S.pair T).Stands a b x v) : T.Stands a b x.2 v.2 := by
  obtain ⟨mid, front, _, _, second⟩ := both
  exact T.widen second front (.refl _)

/-- Something was put into `b`, in which values stood for what was put in since `a`: what was there is kept, and the
value stands for what was put in since `a`. -/
structure Puts (S : Standing α β) (a b : Builder) (x : α) (added : β × Builder) : Prop where
  keeps : b.Extends added.2
  stands : S.Stands a added.2 x added.1

theorem Puts.refl {x : α} {v : β} (stands : S.Stands a b x v) : S.Puts a b x (v, b) := ⟨.refl b, stands⟩

end Standing

/-- How a rule that yields trees ends, beside how one ends that worked on a builder, which was `b` before. -/
inductive Alike (S : Standing α β) (b : Builder) : Except Error (α × Input) → Except Error (β × Input) × Builder → Prop
  | ok {x : α} {v : β} (j : Input) (b' : Builder) (keeps : b.Extends b') (stands : S.Stands b b' x v) :
      Alike S b (.ok (x, j)) (.ok (v, j), b')
  | error (e : Error) (b' : Builder) (keeps : b.Extends b') : Alike S b (.error e) (.error e, b')

variable {b a : Builder} {r : Rule Expr} {s : Building ExprId}

theorem Alike.after {S : Standing α β} {x : Except Error (α × Input)} {y : Except Error (β × Input) × Builder}
    (keeps : a.Extends b) (alike : Alike S b x y) : Alike S a x y := by
  cases alike with
  | ok j b' later stands => exact .ok j b' (keeps.trans later) (S.widen stands keeps (.refl b'))
  | error e b' later => exact .error e b' (keeps.trans later)

/-- From every position and every builder the two rules end alike. -/
def Builds (S : Standing α β) (r : Rule α) (s : Building β) : Prop := ∀ i b, Alike S b (r i) (s i b)

/-! ## Putting rules together -/

namespace Builds

variable {S : Standing α β} {T : Standing γ δ} {r : Rule α} {s : Building β} {r' : Rule γ} {s' : Building δ}

theorem ofRule (r : Rule α) : Builds (.same α) r (ofRule r) := by
  intro i b
  unfold Building.ofRule
  cases r i with
  | ok read => exact .ok read.2 b (.refl b) rfl
  | error e => exact .error e b (.refl b)

theorem unimplemented (S : Standing α β) (trigger : Rule γ) (feature : Bytes) :
    Builds S (Rule.unimplemented trigger feature) (unimplemented trigger feature) := by
  intro i b
  unfold Building.unimplemented Building.ofRule Rule.unimplemented
  cases trigger i with
  | ok _ => exact .error _ b (.refl b)
  | error e => exact .error e b (.refl b)

theorem map {f : α → γ} {g : Builder → β → δ × Builder} (h : Builds S r s)
    (puts : ∀ a b x v, a.Extends b → S.Stands a b x v → T.Puts a b (f x) (g b v)) : Builds T (r.map f) (s.map g) := by
  intro i b
  have built := h i b
  unfold Rule.map Building.map
  generalize r i = x, s i b = y at built ⊢
  cases built with
  | error e b' keeps => exact .error e b' keeps
  | ok j b' keeps stands =>
    have put := puts b b' _ _ keeps stands
    exact .ok j _ (keeps.trans put.keeps) put.stands

theorem put {T : Standing α δ} {g : Builder → β → δ × Builder} (h : Builds S r s)
    (puts : ∀ a b x v, a.Extends b → S.Stands a b x v → T.Puts a b x (g b v)) : Builds T r (s.map g) := by
  have unchanged : r.map id = r := by
    funext i
    unfold Rule.map
    cases r i with
    | ok _ => rfl
    | error _ => rfl
  exact unchanged ▸ h.map puts

theorem firstOf {rs : List (Rule α)} {ss : List (Building β)} (all : List.Forall₂ (Builds S) rs ss)
    (best : Option Error) : Builds S (Rule.firstOf best rs) (firstOf best ss) := by
  induction all generalizing best with
  | nil => exact fun i b => .error _ b (.refl b)
  | @cons r s rs ss h _ rest =>
    intro i b
    have built := h i b
    unfold Rule.firstOf Building.firstOf
    generalize r i = x, s i b = y at built ⊢
    cases built with
    | ok j b' keeps stands => exact .ok j b' keeps stands
    | error e b' keeps =>
      dsimp only
      split
      · exact (rest _ i b').after keeps
      · exact .error e b' keeps

theorem alt {rs : List (Rule α)} {ss : List (Building β)} (all : List.Forall₂ (Builds S) rs ss) :
    Builds S (Rule.alt rs) (alt ss) :=
  firstOf all none

theorem pair (h : Builds S r s) (h' : Builds T r' s') : Builds (S.pair T) (r.pair r') (s.pair s') := by
  intro i b
  have built := h i b
  unfold Rule.pair Building.pair
  generalize r i = x, s i b = y at built ⊢
  cases built with
  | error e b' keeps => exact .error e b' keeps
  | ok j b' keeps first =>
    have next := h' j b'
    dsimp only
    generalize r' j = x, s' j b' = y at next ⊢
    cases next with
    | error e b'' later => exact .error e b'' (keeps.trans later)
    | ok k b'' later second => exact .ok k b'' (keeps.trans later) ⟨b', keeps, later, first, second⟩

theorem preceded (h : Builds S r s) (h' : Builds T r' s') : Builds T (r.preceded r') (s.preceded s') :=
  (h.pair h').map fun _ _ _ _ _ both => .refl (Standing.snd both)

theorem terminated (h : Builds S r s) (h' : Builds T r' s') : Builds S (r.terminated r') (s.terminated s') :=
  (h.pair h').map fun _ _ _ _ _ both => .refl (Standing.fst both)

theorem many (h : Builds S r s) (i : Input) (b : Builder) : Alike S.list b (Rule.many r i) (many s i b) := by
  induction left : i.left using Nat.strongRecOn generalizing i b with
  | ind n ih =>
    subst left
    unfold Rule.many Building.many
    split
    · exact .ok i b (.refl b) (.nil (.refl b))
    · have built := h i b
      generalize r i = x, s i b = y at built ⊢
      cases built with
      | error e b' keeps =>
        dsimp only
        split
        · exact .ok i b' keeps (.nil keeps)
        · exact .error e b' keeps
      | ok j b' keeps first =>
        dsimp only
        split
        · next less =>
          have others := ih j.left less j b' rfl
          generalize Rule.many r j = x, Building.many s j b' = y at others ⊢
          cases others with
          | error e b'' later => exact .error e b'' (keeps.trans later)
          | ok k b'' later rest => exact .ok k b'' (keeps.trans later) (.cons keeps first rest)
        · exact .ok i b' keeps (.nil keeps)

theorem many0 (h : Builds S r s) : Builds S.list r.many0 s.many0 := h.many

theorem opt (h : Builds S r s) : Builds S.option r.opt s.opt := by
  intro i b
  have built := h i b
  unfold Rule.opt Building.opt
  generalize r i = x, s i b = y at built ⊢
  cases built with
  | ok j b' keeps stands => exact .ok j b' keeps (.some stands)
  | error e b' keeps =>
    dsimp only
    split
    · exact .ok i b' keeps .none
    · exact .error e b' keeps

theorem separated (sep : Builds S r s) (element : Builds T r' s') : Builds T.list (r.separated r') (s.separated s') :=
  (element.pair (sep.preceded element).many0).map fun _ _ _ _ _ ⟨_, front, _, first, rest⟩ =>
    .refl (.cons front first rest)

theorem allConsuming (h : Builds S r s) : Builds S r.allConsuming s.allConsuming := by
  intro i b
  have built := h i b
  unfold Rule.allConsuming Building.allConsuming
  generalize r i = x, s i b = y at built ⊢
  cases built with
  | error e b' keeps => exact .error e b' keeps
  | ok j b' keeps stands =>
    dsimp only
    split
    · exact .ok j b' keeps stands
    · exact .error _ b' keeps

theorem label (h : Builds S r s) (what : Bytes) (code : Code) : Builds S (r.label what code) (s.label what code) := by
  intro i b
  have built := h i b
  unfold Rule.label Building.label
  generalize r i = x, s i b = y at built ⊢
  cases built with
  | ok j b' keeps stands => exact .ok j b' keeps stands
  | error e b' keeps =>
    dsimp only
    split
    · exact .error _ b' keeps
    · exact .error e b' keeps

end Builds

/-! ## Expressions -/

theorem tag_builds (kind : Token.Kind) : Builds (.same Token) (Rule.tag kind) (tag kind) := .ofRule _

theorem oneOf_builds (kinds : List Token.Kind) : Builds (.same Token) (Rule.oneOf kinds) (oneOf kinds) := .ofRule _

theorem addName_puts (a b : Builder) (n : Name) : Standing.name.Puts a b n (b.addName n) :=
  ⟨(b.addName_grown n).keeps, b.addName_holds n⟩

theorem name_builds : Builds .name Grammar.name name :=
  .alt (.cons ((tag_builds _).map fun a b _ _ _ same => same ▸ addName_puts a b _)
    (.cons ((tag_builds _).map fun a b _ _ _ same => same ▸ addName_puts a b _) .nil))

theorem Grown.puts {e : Expr} {added : ExprId × Builder} (keeps : a.Extends b) (grown : b.Grown added.2 1)
    (stored : added.2.Stored e added.1)
    (planted : added.2.Planted (fun x => Between a.exprs.size b.exprs.size x ∨ x = b.exprs.size + 1) [added.1]) :
    Standing.expr.Puts a b e added := by
  refine ⟨grown.keeps, stored, planted.widen fun x mine => ?_⟩
  have up := Builder.size_le_of_extends keeps.exprs
  rw [grown.room]
  rcases mine with below | rfl
  · exact below.widen (Nat.le_refl _) (Nat.le_add_right ..)
  · exact ⟨Nat.lt_succ_of_le up, Nat.le_refl _⟩

theorem literal_builds : Builds .expr Grammar.literal literal := by
  refine (oneOf_builds _).map ?_
  rintro a b t _ keeps rfl
  let kind := (literalKind? t.kind).getD .char
  have interned := (b.intern_grown t.text).keeps
  have put : Standing.expr.Puts a (b.intern t.text).2 (.literal kind t.text t.span) _ :=
    Grown.puts (keeps.trans interned) (Builder.newLiteral_grown _ (.known kind) _ t.span)
      (Builder.newLiteral_stored (b.strings.lookup?_intern t.text) kind t.span)
      ((Builder.newLiteral_planted ..).widen fun _ => .inr)
  exact ⟨interned.trans put.keeps, put.stands⟩

theorem path_builds : Builds .expr Grammar.path path := by
  have segment := (tag_builds .dot).preceded name_builds
  unfold Grammar.path path
  refine (name_builds.pair (segment.pair segment.many0)).map ?_
  rintro a b ⟨first, second, others⟩ ⟨_, _, _⟩ keeps stands
  have held := Standing.fst stands
  have next := Standing.fst (Standing.snd stands)
  have rest : List.Forall₂ b.HoldsName others _ :=
    Consecutive.forall₂ (Standing.snd (Standing.snd stands)) (fun held => held) fun later held => held.mono later
  exact Grown.puts keeps (Builder.newPath_grown ..) (Builder.newPath_stored (.cons held (.cons next rest)))
    ((Builder.newPath_planted ..).widen fun _ => .inr)

theorem newTuple_puts {es : List Expr} {ids : List ExprId} (keeps : a.Extends b)
    (added : Standing.expr.list.Stands a b es ids) (span : Span) :
    Standing.expr.Puts a b (.tuple es span) (b.newTuple ids span) := by
  have stored := Consecutive.forall₂ added AddedExpr.stored fun later held => held.mono later
  exact Grown.puts keeps (Builder.newTuple_grown ..) (Builder.newTuple_stored stored span)
    (Builder.newTuple_planted (Builder.planted_of_consecutive added) (fun _ mine => mine.2) span)

theorem tuple_builds (h : Builds .expr r s) : Builds .expr (Grammar.tuple r) (tuple s) := by
  have elements := (((tag_builds .comma).separated h).pair (tag_builds .comma).opt).opt
  refine ((tag_builds .lParen).pair (elements.pair (tag_builds .rParen))).map ?_
  rintro a b ⟨opening, found, closing⟩ ⟨opening', found', closing'⟩ keeps stands
  obtain rfl : opening = opening' := Standing.fst stands
  obtain rfl : closing = closing' := Standing.snd (Standing.snd stands)
  have inner := Standing.fst (Standing.snd stands)
  dsimp only at inner ⊢
  cases inner with
  | none => exact newTuple_puts keeps (.nil keeps) _
  | @some found found' both =>
    obtain ⟨es, comma⟩ := found
    obtain ⟨ids, comma'⟩ := found'
    have added := Standing.fst both
    have commas := Standing.snd both
    dsimp only at added commas ⊢
    cases added with
    | nil grown => exact newTuple_puts keeps (.nil grown) _
    | cons front first rest =>
      cases rest with
      | nil behind =>
        -- one expression makes a tuple only with a comma behind it
        cases commas with
        | none => exact .refl (first.widen (.refl _) behind)
        | some _ => exact newTuple_puts keeps (.cons front first (.nil behind)) _
      | cons next second rest => exact newTuple_puts keeps (.cons front first (.cons next second rest)) _

theorem primary_builds (h : Builds .expr r s) : Builds .expr (Grammar.primary r) (primary s) := by
  have named : Builds .expr (Rule.map Grammar.name .name) (map name fun b n => b.newName n) :=
    name_builds.map fun _ _ _ _ keeps held => Grown.puts keeps (Builder.newName_grown ..) (Builder.newName_stored held)
      ((Builder.newName_planted ..).widen fun _ => .inr)
  refine .alt ?_
  simp only [List.forall₂_cons]
  exact ⟨literal_builds, .unimplemented _ _ _, .unimplemented _ _ _, .unimplemented _ _ _, .unimplemented _ _ _,
    .unimplemented _ _ _, path_builds, named, tuple_builds h, .nil⟩

/-! Operators are put in when all their operands have been, so an operand that comes later has smaller numbers than the
operators in front of it. -/

/-- The operand on the left of operands that were put in between `mid` and `last`: it has numbers up to `mid`, and those
of the operators that were put in behind `last`. -/
structure LeftOperand (a mid last b : Builder) (e : Expr) (id : ExprId) : Prop where
  stored : b.Stored e id
  planted : b.Planted (fun x => Between a.exprs.size mid.exprs.size x ∨ Between last.exprs.size b.exprs.size x) [id]
  begins : a.Extends mid
  reads : mid.Extends last
  keeps : last.Extends b

theorem LeftOperand.applyBinary {mid next last : Builder} {left : Expr} {id : ExprId} {step : Token × Expr}
    {step' : Token × ExprId} (operand : LeftOperand a mid last b left id)
    (stands : (Standing.pair (.same Token) .expr).Stands mid next step step') (front : mid.Extends next)
    (behind : next.Extends last) :
    LeftOperand a next last (Building.applyBinary b id step').2 (Grammar.applyBinary left step)
      (Building.applyBinary b id step').1 := by
  obtain ⟨tok, right⟩ := step
  obtain ⟨tok', right'⟩ := step'
  obtain rfl : tok = tok' := Standing.fst stands
  have added : AddedExpr mid next right right' := Standing.snd stands
  have later := behind.trans operand.keeps
  have stored := added.stored.mono later
  rw [Grammar.applyBinary, Building.applyBinary, ← operand.stored.exprSpan, ← stored.exprSpan]
  have begin_le := Builder.size_le_of_extends operand.begins.exprs
  have mid_le := Builder.size_le_of_extends front.exprs
  have next_le := Builder.size_le_of_extends behind.exprs
  have last_le := Builder.size_le_of_extends operand.keeps.exprs
  have both := operand.planted.cons (added.planted.mono later) fun x mine others => by
    unfold Between at mine others
    omega
  let data : OperatorEntry := { op := .known ((binaryOperator? tok.kind).getD .or), left := id, right := right' }
  have operands : (if data.left = 0 then [data.right] else [data.left, data.right]) = [id, right'] :=
    if_neg operand.stored.holds.ne_zero
  have planted := Builder.newOperator_planted data (operands ▸ both) (fun x mine => by unfold Between at mine; omega)
    ((b.exprSpan id).join (b.exprSpan right'))
  have grown := b.newOperator_grown data ((b.exprSpan id).join (b.exprSpan right'))
  refine ⟨Builder.newBinary_stored operand.stored stored _ _, planted.widen fun x mine => ?_,
    operand.begins.trans front, behind, operand.keeps.trans grown.keeps⟩
  have room : (b.newOperator data _).2.exprs.size = b.exprs.size + 1 := grown.room
  show Between a.exprs.size next.exprs.size x ∨ Between last.exprs.size (b.newOperator data _).2.exprs.size x
  rw [room]
  unfold Between at mine ⊢
  omega

theorem LeftOperand.applyAll {mid last : Builder} {left : Expr} {id : ExprId} {steps : List (Token × Expr)}
    {steps' : List (Token × ExprId)} (operand : LeftOperand a mid last b left id)
    (stands : (Standing.pair (.same Token) .expr).list.Stands mid last steps steps') :
    b.Extends (Building.applyAll b id steps').2 ∧
      AddedExpr a (Building.applyAll b id steps').2 (steps.foldl Grammar.applyBinary left)
        (Building.applyAll b id steps').1 := by
  induction steps generalizing mid b left id steps' with
  | nil =>
    cases stands with
    | nil grown =>
      have mid_le := Builder.size_le_of_extends grown.exprs
      have last_le := Builder.size_le_of_extends operand.keeps.exprs
      have begin_le := Builder.size_le_of_extends operand.begins.exprs
      refine ⟨.refl b, operand.stored, operand.planted.widen fun x mine => ?_⟩
      show Between a.exprs.size b.exprs.size x
      unfold Between at mine ⊢
      omega
  | cons step steps ih =>
    cases stands with
    | @cons _ next _ _ step' _ _ front first rest =>
      have joined := operand.applyBinary first front rest.keeps
      obtain ⟨keeps, added⟩ := ih joined rest
      have grown : b.Extends (Building.applyBinary b id step').2 := (Builder.newOperator_grown ..).keeps
      exact ⟨grown.trans keeps, added⟩

theorem AddedExpr.leftOperand {mid : Builder} {e : Expr} {id : ExprId} (added : AddedExpr a mid e id)
    (begins : a.Extends mid) (keeps : mid.Extends b) : LeftOperand a mid b b e id :=
  ⟨added.stored.mono keeps, (added.planted.mono keeps).widen fun _ => .inl, begins, keeps, .refl b⟩

theorem leftAssoc_builds (operators : List Token.Kind) (h : Builds .expr r s) :
    Builds .expr (Grammar.leftAssoc operators r) (leftAssoc operators s) := by
  refine (h.pair ((oneOf_builds operators).pair h).many0).map ?_
  rintro a b x v _ ⟨mid, front, behind, first, rest⟩
  obtain ⟨keeps, added⟩ := (AddedExpr.leftOperand first front behind).applyAll rest
  exact ⟨keeps, added⟩

theorem rangeOf_builds (h : Builds .expr r s) : Builds .expr (Grammar.rangeOf r) (rangeOf s) := by
  refine (h.pair ((oneOf_builds [.dotDot, .dotDotEq]).pair h).opt).map ?_
  rintro a b ⟨first, step⟩ ⟨id, step'⟩ _ ⟨mid, front, behind, added, stands⟩
  dsimp only at added stands ⊢
  cases stands with
  | none => exact .refl (added.widen (.refl _) behind)
  | some both =>
    obtain ⟨keeps, added⟩ := (AddedExpr.leftOperand added front behind).applyAll (.cons behind both (.nil (.refl b)))
    exact ⟨keeps, added⟩

theorem binary_builds (h : Builds .expr r s) : Builds .expr (Grammar.binary r) (binary s) :=
  have sum := leftAssoc_builds [.plus, .minus] (leftAssoc_builds [.percent, .star, .slash] h)
  leftAssoc_builds _ (leftAssoc_builds _ (leftAssoc_builds _ (rangeOf_builds sum)))

theorem unary_builds (h : Builds .expr r s) (depth : Nat) : Builds .expr (Grammar.unary r depth) (unary s depth) := by
  induction depth with
  | zero => exact primary_builds h
  | succ depth ih =>
    refine .alt (.cons (((oneOf_builds [.minus, .bang]).pair ih).map ?_) (.cons (primary_builds h) .nil))
    rintro a b ⟨op, operand⟩ ⟨op', id⟩ keeps stands
    obtain rfl : op = op' := Standing.fst stands
    have added : AddedExpr a b operand id := Standing.snd stands
    have lies := added.stored.exprSpan
    simp only [← lies]
    refine Grown.puts keeps (Builder.newOperator_grown ..) (Builder.newUnary_stored added.stored _ _) ?_
    exact Builder.newOperator_planted { op := _, right := id } added.planted (fun _ mine => mine.2) _

theorem exprWithin_builds (depth : Nat) : Builds .expr (Grammar.exprWithin depth) (exprWithin depth) := by
  induction depth with
  | zero => exact Builds.label (.alt .nil) _ _
  | succ depth ih => exact Builds.label (binary_builds (unary_builds ih _)) _ _

theorem expr_builds : Builds .expr Grammar.expr expr := fun i => exprWithin_builds (i.left + 1) i

/-! ## Statements -/

theorem newStmt_puts {s : Statement} {entry : StmtEntry} (keeps : a.Extends b)
    (value : AddedExpr a b s.value entry.expr) (stored : (b.newStmt entry).2.StoredStatement s (b.newStmt entry).1) :
    Standing.stmt.Puts a b s (b.newStmt entry) where
  keeps := (b.newStmt_grown entry).keeps
  stands := {
    stored
    between := ⟨Nat.lt_succ_of_le (Builder.size_le_of_extends keeps.stmts), Nat.le_of_eq (Array.size_push _).symm⟩
    value := ⟨entry, Arena.get?_alloc .., value.planted.mono (b.newStmt_grown entry).keeps⟩ }

theorem letStatement_builds : Builds .stmt Grammar.letStatement letStatement := by
  refine (((tag_builds _).pair (name_builds.terminated (tag_builds _))).pair (expr_builds.pair (tag_builds _))).map ?_
  rintro a b ⟨⟨start, bound⟩, value, semicolon⟩ ⟨⟨start', name⟩, id, semicolon'⟩ keeps stands
  obtain rfl : start = start' := Standing.fst (Standing.fst stands)
  obtain rfl : semicolon = semicolon' := Standing.snd (Standing.snd stands)
  have held : b.HoldsName bound name := Standing.snd (Standing.fst stands)
  have added : AddedExpr a b value id := Standing.fst (Standing.snd stands)
  exact newStmt_puts keeps added (Builder.newLetStmt_stored held added.stored _)

theorem exprStatement_builds : Builds .stmt Grammar.exprStatement exprStatement := by
  refine (expr_builds.pair (tag_builds _)).map ?_
  rintro a b ⟨value, semicolon⟩ ⟨id, semicolon'⟩ keeps stands
  obtain rfl : semicolon = semicolon' := Standing.snd stands
  have added : AddedExpr a b value id := Standing.fst stands
  have lies := added.stored.exprSpan
  simp only [← lies]
  exact newStmt_puts keeps added (Builder.newExprStmt_stored added.stored _)

theorem node_builds : Builds .node Grammar.node node := by
  refine .alt (.cons (.unimplemented _ _ _) (.cons ?_ .nil))
  have statement := Builds.alt (.cons letStatement_builds (.cons exprStatement_builds .nil))
  refine statement.put fun a b s id keeps added => ?_
  have added : AddedStatement a b s id := added
  simp only [added.stored.stmtSpan]
  have grown := (b.newNode_grown { kind := .known .statement, span := s.span, stmt := id }).keeps
  refine ⟨grown, Builder.newStatementNode_stored added.stored, ?_, _, Arena.get?_alloc .., ?_⟩
  · exact ⟨Nat.lt_succ_of_le (Builder.size_le_of_extends keeps.nodes), Nat.le_of_eq (Array.size_push _).symm⟩
  · exact added.widen (.refl a) grown

end LetStack.Grammar.Building

/-! ## Whole texts -/

namespace LetStack.Grammar
open Ast Building
open Ast.Builder (AddedModule AddedNode)

/-- How putting in a module ends: with a failure, or with what is read back of the module. -/
def moduleOutcome (b : Builder) (toks : List Token) : Except Failure (Option (Span × List Statement)) :=
  (buildModule b toks).1.map (buildModule b toks).2.moduleTree?

/-- How putting in an expression ends: with a failure, or with what is read back of the expression. -/
def exprOutcome (b : Builder) (toks : List Token) : Except Failure (Option Expr) :=
  let b' := (buildExpr b toks).2
  (buildExpr b toks).1.map (b'.exprTree? b'.depthBound)

/-- Putting in a module fails exactly as parsing it does, and otherwise the parsed statements are put in. -/
theorem buildModule_cases (b : Builder) (toks : List Token) :
    (∃ failure, parseModule toks = .error failure ∧ (buildModule b toks).1 = .error failure ∧
      b.Extends (buildModule b toks).2) ∨
    ∃ ss id, parseModule toks = .ok ss ∧ (buildModule b toks).1 = .ok id ∧
      AddedModule b (buildModule b toks).2 ss id := by
  have built := node_builds.many0.allConsuming { tokens := toks.toArray } b
  unfold buildModule parseModule
  dsimp only
  generalize Rule.allConsuming (Rule.many0 Grammar.node) { tokens := toks.toArray } = x,
    Building.allConsuming (Building.many0 Building.node) { tokens := toks.toArray } b = y at built ⊢
  cases built with
  | @ok ss nodes j b' keeps added =>
    have added : Builder.Consecutive AddedNode b b' ss nodes := added
    have stored := added.forall₂ AddedNode.stored fun later held => held.mono later
    obtain ⟨later, found⟩ := Builder.newModule_pushed (Builder.exists_node stored) (Span.joinAll (nodes.map b'.nodeSpan))
    rw [Builder.map_nodeSpan stored] at later found
    refine .inr ⟨ss, _, rfl, rfl, ?_⟩
    dsimp only
    rw [Builder.map_nodeSpan stored]
    exact ⟨keeps.trans later, nodes, found, added.widen AddedNode.widen (.refl b) later⟩
  | error e b' keeps =>
    -- where tokens are left over, the rule of statements is tried once more, and ends alike on both sides
    have again := node_builds (Input.moveTo { tokens := toks.toArray } e.pos) b'
    refine .inl ?_
    dsimp only
    cases e.reason with
    | trailing =>
      generalize Grammar.node (Input.moveTo { tokens := toks.toArray } e.pos) = x,
        Building.node (Input.moveTo { tokens := toks.toArray } e.pos) b' = y at again ⊢
      cases again with
      | ok _ _ later _ => exact ⟨_, rfl, rfl, keeps.trans later⟩
      | error _ _ later => exact ⟨_, rfl, rfl, keeps.trans later⟩
    | _ => exact ⟨_, rfl, rfl, keeps⟩

variable {toks : List Token}

theorem buildModule_of_ok (b : Builder) {ss : List Statement} (parsed : parseModule toks = .ok ss) :
    ∃ id, (buildModule b toks).1 = .ok id ∧ AddedModule b (buildModule b toks).2 ss id := by
  rcases buildModule_cases b toks with ⟨failure, failed, _⟩ | ⟨ss', id, parsed', built, added⟩
  · cases failed.symm.trans parsed
  · cases parsed'.symm.trans parsed
    exact ⟨id, built, added⟩

theorem buildModule_parsed {b : Builder} {id : ModuleId} (built : (buildModule b toks).1 = .ok id) :
    ∃ ss, parseModule toks = .ok ss ∧ AddedModule b (buildModule b toks).2 ss id := by
  rcases buildModule_cases b toks with ⟨failure, _, failed, _⟩ | ⟨ss, id', parsed, built', added⟩
  · cases failed.symm.trans built
  · cases built'.symm.trans built
    exact ⟨ss, parsed, added⟩

theorem buildModule_stored (b : Builder) {ss : List Statement} (parsed : parseModule toks = .ok ss) :
    ∃ id m, (buildModule b toks).1 = .ok id ∧ (buildModule b toks).2.StoredModule ss id m := by
  obtain ⟨id, built, added⟩ := buildModule_of_ok b parsed
  obtain ⟨m, stored⟩ := added.stored
  exact ⟨id, m, built, stored⟩

theorem buildModule_of_error (b : Builder) {failure : Failure} (failed : parseModule toks = .error failure) :
    (buildModule b toks).1 = .error failure := by
  rcases buildModule_cases b toks with ⟨failure', failed', built, _⟩ | ⟨ss, id, parsed, _⟩
  · cases failed'.symm.trans failed
    exact built
  · cases parsed.symm.trans failed

theorem buildModule_appends (b : Builder) (toks : List Token) :
    b.Extends (buildModule b toks).2 ∧
      moduleOutcome b toks = (parseModule toks).map fun ss => some (moduleSpan ss, ss) := by
  rcases buildModule_cases b toks with ⟨failure, failed, built, keeps⟩ | ⟨ss, id, parsed, built, added⟩
  · exact ⟨keeps, by rw [moduleOutcome, built, failed]; rfl⟩
  · obtain ⟨m, stored⟩ := added.stored
    refine ⟨added.keeps, ?_⟩
    rw [moduleOutcome, built, parsed]
    exact congrArg Except.ok stored.moduleTree?

theorem buildExpr_appends (b : Builder) (toks : List Token) :
    b.Extends (buildExpr b toks).2 ∧ exprOutcome b toks = (parseExpr toks).map some := by
  have built := expr_builds.allConsuming { tokens := toks.toArray } b
  unfold exprOutcome buildExpr parseExpr
  generalize Rule.allConsuming Grammar.expr { tokens := toks.toArray } = x,
    Building.allConsuming Building.expr { tokens := toks.toArray } b = y at built ⊢
  cases built with
  | ok j b' keeps added => exact ⟨keeps, congrArg Except.ok (Builder.Stored.exprTree? added.stored)⟩
  | error e b' keeps => exact ⟨keeps, rfl⟩

/-- Everything that a number stood for before a parse, whether it fails or not, it stands for afterwards; and how the
parse ends, down to the texts and places of the tree, does not depend on what the builder held. -/
theorem parsing_only_appends (b : Builder) (toks : List Token) :
    b.Extends (buildModule b toks).2 ∧ b.Extends (buildExpr b toks).2 ∧
      moduleOutcome b toks = (parseModule toks).map (fun ss => some (moduleSpan ss, ss)) ∧
      exprOutcome b toks = (parseExpr toks).map some ∧
      ∀ b', moduleOutcome b' toks = moduleOutcome b toks ∧ exprOutcome b' toks = exprOutcome b toks := by
  obtain ⟨keepsModule, readModule⟩ := buildModule_appends b toks
  obtain ⟨keepsExpr, readExpr⟩ := buildExpr_appends b toks
  refine ⟨keepsModule, keepsExpr, readModule, readExpr, fun b' => ⟨?_, ?_⟩⟩
  · exact (buildModule_appends b' toks).2.trans readModule.symm
  · exact (buildExpr_appends b' toks).2.trans readExpr.symm

-- What a failing parse has put in stays: here the name, once on the way to the failure and once on that to its cause.
example :
    let built := buildModule {} [{ kind := .ident, text := [97] }, { kind := .intLit, text := [49] }]
    built.1.isOk = false ∧ built.2.names.size = 2 := by
  decide +kernel

end LetStack.Grammar
