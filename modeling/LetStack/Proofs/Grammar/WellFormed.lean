import LetStack.Proofs.Grammar.Appending

/-!
`buildModule` puts trees into a builder, whatever the builder held before. Every number that is reached stands for an
entry with data in the arena of its kind and the text of a token (`Formed`), nothing is reached in two ways
(`Builder.addedNodes_reached_once`), and operands have smaller numbers (`Builder.addedNodes_operands_lt`).
-/

namespace LetStack.Grammar
open Ast Rule
open Ast.Builder (Part)

/-! ## What an expression says about its tokens -/

/-- Names and literals are tokens of the word, and operators have the operands that they take. -/
def FromTokens (w : List Token) : Expr → Prop
  | .literal kind raw span => ∃ tok ∈ w, (tok.kind, kind) ∈ literalKinds ∧ raw = tok.text ∧ span = tok.span
  | .name n => ∃ tok ∈ w, SpellsName tok n
  | .path ns => ∀ n ∈ ns, ∃ tok ∈ w, SpellsName tok n
  | .tuple _ _ => True
  | .unary op _ _ => op.isUnary = true
  | .binary op _ _ _ => op.isUnary = false

theorem FromTokens.mono {u w : List Token} {e : Expr} (h : FromTokens u e) (sub : u ⊆ w) : FromTokens w e := by
  have token {P : Token → Prop} (found : ∃ tok ∈ u, P tok) : ∃ tok ∈ w, P tok := by
    obtain ⟨tok, member, holds⟩ := found
    exact ⟨tok, sub member, holds⟩
  cases e with
  | literal kind raw span => exact token h
  | name n => exact token h
  | path ns => exact fun n hn => token (h n hn)
  | tuple elements span => trivial
  | unary op operand span => exact h
  | binary op l r span => exact h

theorem segments_fromTokens {w : List Token} {ns : List Name} (h : Repeated SpellsSegment w ns) :
    ∀ n ∈ ns, ∃ tok ∈ w, SpellsName tok n := by
  induction ns generalizing w with
  | nil => simp
  | cons n ns ih =>
    obtain ⟨_, v, rfl, ⟨dot, tok, rfl, _, hn⟩, hns⟩ := h
    refine List.forall_mem_cons.2 ⟨⟨tok, by simp, hn⟩, fun m hm => ?_⟩
    obtain ⟨tok', member, spelled⟩ := ih hns m hm
    exact ⟨tok', List.mem_append_right _ member, spelled⟩

theorem binaryOperator?_isUnary {k : Token.Kind} {op : Operator} (h : binaryOperator? k = some op) :
    op.isUnary = false := by
  cases k <;> cases h <;> rfl

theorem Spells.fromTokens {w : List Token} {e : Expr} (h : Spells w e) : FromTokens w e := by
  induction h with
  | literal hk => exact ⟨_, List.mem_cons_self, hk, rfl, rfl⟩
  | name hn => exact ⟨_, List.mem_cons_self, hn⟩
  | path hn hns =>
    refine List.forall_mem_cons.2 ⟨⟨_, List.mem_cons_self, hn⟩, fun m hm => ?_⟩
    obtain ⟨tok, member, spelled⟩ := segments_fromTokens hns m hm
    exact ⟨tok, List.mem_cons_of_mem _ member, spelled⟩
  | @group opening closing w e _ _ _ ih => exact ih.mono fun tok member => by simp [member]
  | tuple _ _ _ _ _ _ => trivial
  | unary hop _ _ =>
    have all : ∀ pair ∈ prefixOperators, pair.2.isUnary = true := by decide
    exact all _ hop
  | binary hop _ _ _ _ => exact binaryOperator?_isUnary hop

/-! ## Entries that are well formed -/

/-- The entry of a name that is a token: an identifier has the text of the token, and the placeholder has
none, which is number 0. -/
inductive NameFormed (b : Builder) (toks : List Token) (n : NameEntry) : Prop
  | ident {tok : Token} : tok ∈ toks → tok.kind = .ident → n.kind = .known .ident → n.span = tok.span →
      b.strings.lookup? n.text = some tok.text → NameFormed b toks n
  | placeholder {tok : Token} : tok ∈ toks → tok.kind = .placeholder → n.kind = .known .placeholder →
      n.span = tok.span → n.text = 0 → b.strings.lookup? n.text = some [] → NameFormed b toks n

/-- The entry of an expression with a number: its data is in the arena of its kind, its texts are those of
tokens, a prefix operator has no left operand, any other has both, and the numbers of operands are smaller
than its own. -/
inductive ExprFormed (b : Builder) (toks : List Token) (id : ExprId) (e : ExprEntry) : Prop
  | literal {tok : Token} {kind : LiteralKind} {raw : StringId} : e.kind = .known .literal →
      b.literals.get? e.payload = some { kind := .known kind, raw } → tok ∈ toks →
      (tok.kind, kind) ∈ literalKinds → e.span = tok.span → b.strings.lookup? raw = some tok.text →
      ExprFormed b toks id e
  | name {n : NameEntry} : e.kind = .known .name → b.names.get? e.payload = some n → NameFormed b toks n →
      ExprFormed b toks id e
  | path {ns : List NameEntry} : e.kind = .known .path → b.paths.get? e.payload = some ns →
      (∀ n ∈ ns, NameFormed b toks n) → ExprFormed b toks id e
  | tuple {ids : List ExprId} : e.kind = .known .tuple → b.tuples.get? e.payload = some ids → (∀ c ∈ ids, c < id) →
      ExprFormed b toks id e
  | unary {op : Operator} {right : ExprId} : e.kind = .known .operator →
      b.operators.get? e.payload = some { op := .known op, left := 0, right } → op.isUnary = true → right < id →
      ExprFormed b toks id e
  | binary {op : Operator} {left right : ExprId} : e.kind = .known .operator →
      b.operators.get? e.payload = some { op := .known op, left, right } → op.isUnary = false →
      left ≠ 0 → right ≠ 0 → left < id → right < id → ExprFormed b toks id e

/-- The number of a part stands for an entry that is well formed. -/
def Formed (b : Builder) (toks : List Token) : Part → Prop
  | .node id => ∃ n, b.node? id = some n ∧ n.kind = .known .statement
  | .stmt id => ∃ s, b.stmt? id = some s ∧
      (s.kind = .known .expr ∨ s.kind = .known .letIn ∧ NameFormed b toks s.name)
  | .expr id => ∃ e, b.expr? id = some e ∧ ExprFormed b toks id e

section
variable {b : Builder} {toks : List Token}

theorem nameFormed {n : Name} {entry : NameEntry} (held : b.HoldsName n entry)
    (spelled : ∃ tok ∈ toks, SpellsName tok n) : NameFormed b toks entry := by
  obtain ⟨tok, member, spelled⟩ := spelled
  cases spelled with
  | ident kind =>
    obtain ⟨id, rfl, text⟩ := held
    exact .ident member kind rfl rfl text
  | placeholder kind =>
    cases held
    exact .placeholder member kind rfl rfl rfl b.strings.reserved

theorem exprFormed {e : Expr} {id : ExprId} (held : b.Holds e id) (tokens : FromTokens toks e)
    (smaller : ∀ c ∈ b.operands id, c < id) : ∃ entry, b.expr? id = some entry ∧ ExprFormed b toks id entry := by
  cases e with
  | literal kind raw span =>
    obtain ⟨data, text, read, stored, found⟩ := held
    obtain ⟨tok, member, hkind, rfl, rfl⟩ := tokens
    exact ⟨_, read, .literal rfl stored member hkind rfl found⟩
  | name n =>
    obtain ⟨data, entry, read, stored, hn⟩ := held
    exact ⟨_, read, .name rfl stored (nameFormed hn tokens)⟩
  | path ns =>
    obtain ⟨data, entries, read, stored, hns⟩ := held
    refine ⟨_, read, .path rfl stored fun entry member => ?_⟩
    obtain ⟨n, hn, holds⟩ := hns.exists_of_mem member
    exact nameFormed holds (tokens n hn)
  | tuple elements span =>
    obtain ⟨data, ids, read, stored, _⟩ := held
    rw [Builder.operands_of_tuple read stored] at smaller
    exact ⟨_, read, .tuple rfl stored smaller⟩
  | unary op operand span =>
    obtain ⟨data, right, read, stored, _⟩ := held
    rw [Builder.operands_of_operator read stored] at smaller
    exact ⟨_, read, .unary rfl stored tokens (smaller right (by simp))⟩
  | binary op l r span =>
    obtain ⟨data, left, right, read, stored, hl, hr⟩ := held
    rw [Builder.operands_of_operator read stored, if_neg hl.ne_zero] at smaller
    refine ⟨_, read, .binary rfl stored tokens hl.ne_zero hr.ne_zero ?_ ?_⟩
    · exact smaller left (by simp)
    · exact smaller right (by simp)

theorem stmtFormed {s : Statement} {id : StmtId} {w : List Token} (held : b.HoldsStatement s id)
    (spelled : SpellsStatement w s) (within : w ⊆ toks) :
    ∃ entry, b.stmt? id = some entry ∧
      (entry.kind = .known .expr ∨ entry.kind = .known .letIn ∧ NameFormed b toks entry.name) := by
  cases spelled with
  | expr _ _ =>
    obtain ⟨expr, read, _⟩ := held
    exact ⟨_, read, .inl rfl⟩
  | @letIn _ tok _ _ n _ _ _ hn _ _ _ =>
    obtain ⟨expr, name, read, bound, _⟩ := held
    exact ⟨_, read, .inr ⟨rfl, nameFormed bound ⟨tok, within (by simp), hn⟩⟩⟩

end

theorem reached_spelled {b : Builder} {ss : List Statement} {nodes : List NodeId} {toks : List Token}
    (held : b.HoldsNodes ss nodes) (spelled : Repeated SpellsStatement toks ss) {way : List Nat} {part : Part}
    (reached : b.Reached nodes way part) : b.HoldsPart ss (SpelledIn toks) part := by
  refine reached.held (SpelledIn toks) held (fun s hs => ?_) fun e he => he.operand
  obtain ⟨w, within, word⟩ := exists_statement_word spelled s hs
  exact word.spelledIn within

/-- A module that was put in by its tokens is a tree, whatever the builder held: the numbers that are reached from it
stand for well-formed entries and are reached in one way each, and reading them back gives the statements that the tokens
spell. -/
theorem parsed_module_is_tree {b : Builder} {toks : List Token} {id : ModuleId} (built : (buildModule b toks).1 = .ok id) :
    let b' := (buildModule b toks).2
    ∃ m ss, b'.module? id = some m ∧ parseModule toks = .ok ss ∧ b'.moduleForm? id = some (ss.map Statement.form) ∧
      (∀ way part, b'.Reached m.nodes way part → Formed b' toks part) ∧
      ∀ way way' part, b'.Reached m.nodes way part → b'.Reached m.nodes way' part → way = way' := by
  intro b'
  obtain ⟨ss, parsed, module⟩ := buildModule_parsed built
  obtain ⟨m, stored⟩ := module.stored
  obtain ⟨nodes, found, added⟩ := module.nodes
  cases found.symm.trans stored.found
  have spelled := parseModule_spells parsed
  refine ⟨_, ss, found, parsed, stored.moduleForm?, ?_, ?_⟩
  · intro way part reached
    have held := reached_spelled stored.holds spelled reached
    cases part with
    | node id =>
      obtain ⟨s, _, stmt, read, _⟩ := held
      exact ⟨_, read, rfl⟩
    | stmt id =>
      obtain ⟨s, hs, held⟩ := held
      obtain ⟨w, within, word⟩ := exists_statement_word spelled s hs
      exact stmtFormed held word within.subset
    | expr id =>
      obtain ⟨e, ⟨w, within, word⟩, held⟩ := held
      exact exprFormed held (word.fromTokens.mono within.subset) (Builder.addedNodes_operands_lt added (.refl _) reached)
  · intro way way' part reached reached'
    exact Builder.addedNodes_reached_once added (.refl _) reached reached'

/-- `a + _ + -a;` -/
private def sumTokens : List Token :=
  [{ kind := .ident, text := [0x61] }, { kind := .plus }, { kind := .placeholder }, { kind := .plus }, { kind := .minus },
   { kind := .ident, text := [0x61] }, { kind := .semicolon }]

/-- What a failing parse has left: the name was put in twice. -/
private def usedBuilder : Builder :=
  (buildModule {} [{ kind := .ident, text := [0x61] }, { kind := .intLit, text := [0x31] }]).2

private def sumBuilder : Builder := (buildModule usedBuilder sumTokens).2

/-- The sum on the left has number 7 and the operand on the right number 6, since sums are put in behind all operands. -/
theorem sum_is_tree :
    (buildModule usedBuilder sumTokens).1 = .ok 1 ∧ sumBuilder.Reached [1] [0, 1, 0] (.expr 5) ∧
    Formed sumBuilder sumTokens (.expr 5) ∧ ∀ way, sumBuilder.Reached [1] way (.expr 5) → way = [0, 1, 0] := by
  have built : (buildModule usedBuilder sumTokens).1 = .ok 1 := by
    have number : (buildModule usedBuilder sumTokens).1.toOption = some 1 := by decide +kernel
    cases outcome : (buildModule usedBuilder sumTokens).1 with
    | error failure =>
      rw [outcome] at number
      cases number
    | ok id =>
      rw [outcome] at number
      cases number
      rfl
  have node : sumBuilder.node? 1 = some { kind := .known .statement, span := {}, stmt := 1 } := by decide +kernel
  have statement : sumBuilder.stmt? 1 = some { kind := .known .expr, span := {}, expr := 8 } := by decide +kernel
  have sum : sumBuilder.operands 8 = [7, 6] := by decide +kernel
  have negation : sumBuilder.operands 6 = [5] := by decide +kernel
  have root : sumBuilder.Reached [1] [0] (.expr 8) := .value (.stmt (.node rfl) node rfl) statement
  have second := root.operand (congrArg (·[1]?) sum)
  have reached := second.operand (congrArg (·[0]?) negation)
  obtain ⟨m, _, found, _, _, formed, once⟩ := parsed_module_is_tree built
  have module : sumBuilder.module? 1 = some { span := {}, nodes := [1] } := by decide +kernel
  cases module.symm.trans found
  exact ⟨built, reached, formed _ _ reached, fun way other => once _ _ _ other reached⟩

end LetStack.Grammar
