import LetStack.Proofs.Grammar.Soundness

/-!
`Spells w e` says that an expression is read off the tokens `w`: names and literals are tokens with text and span, an
operator has the join of its operands, a tuple runs from one parenthesis to the other, and grouping changes nothing.
What `parseModule` yields is spelled by its tokens (`parseModule_spells`), so spans of parsed trees are proved by
induction on `Spells`.
-/

namespace LetStack.Grammar
open Ast Rule

/-- The name that a token is. -/
inductive SpellsName : Token → Name → Prop
  | ident {tok : Token} : tok.kind = .ident → SpellsName tok (.ident tok.text tok.span)
  | placeholder {tok : Token} : tok.kind = .placeholder → SpellsName tok (.placeholder tok.span)

/-- A dot and the name behind it. -/
def SpellsSegment (w : List Token) (n : Name) : Prop :=
  ∃ dot tok, w = [dot, tok] ∧ dot.kind = .dot ∧ SpellsName tok n

/-- An element of a tuple with the word that it is read off and the commas in front of it. -/
structure Element where
  commas : List Token
  word : List Token
  value : Expr

def Element.tokens (x : Element) : List Token := x.commas ++ x.word

/-- The first element has no comma in front of it and one behind it, before the next element or at the end. -/
def Separated : List Element → List Token → Prop
  | [], trailing => trailing = []
  | first :: rest, trailing => first.commas = [] ∧
      ∃ comma more, comma.kind = .comma ∧ rest.flatMap Element.tokens ++ trailing = comma :: more

inductive Spells : List Token → Expr → Prop
  | literal {tok : Token} {kind : LiteralKind} : (tok.kind, kind) ∈ literalKinds →
      Spells [tok] (.literal kind tok.text tok.span)
  | name {tok : Token} {n : Name} : SpellsName tok n → Spells [tok] (.name n)
  | path {tok : Token} {n : Name} {w : List Token} {ns : List Name} : SpellsName tok n →
      Repeated SpellsSegment w ns → Spells (tok :: w) (.path (n :: ns))
  | group {opening closing : Token} {w : List Token} {e : Expr} : opening.kind = .lParen → Spells w e →
      closing.kind = .rParen → Spells (opening :: (w ++ [closing])) e
  | tuple {opening closing : Token} {elements : List Element} {trailing : List Token} :
      opening.kind = .lParen → (∀ x ∈ elements, Spells x.word x.value) →
      (∀ x ∈ elements, ∀ tok ∈ x.commas, tok.kind = .comma) → (∀ tok ∈ trailing, tok.kind = .comma) →
      Separated elements trailing → closing.kind = .rParen →
      Spells (opening :: (elements.flatMap Element.tokens ++ trailing ++ [closing]))
        (.tuple (elements.map Element.value) (opening.span.join closing.span))
  | unary {tok : Token} {op : Operator} {w : List Token} {e : Expr} : (tok.kind, op) ∈ prefixOperators →
      Spells w e → Spells (tok :: w) (.unary op e (tok.span.join e.span))
  | binary {tok : Token} {op : Operator} {u v : List Token} {l r : Expr} : binaryOperator? tok.kind = some op →
      Spells u l → Spells v r → Spells (u ++ tok :: v) (.binary op l r (l.span.join r.span))

/-- A statement ends at its semicolon; a binding starts at its keyword, any other statement where its
expression does. -/
inductive SpellsStatement : List Token → Statement → Prop
  | expr {w : List Token} {e : Expr} {semicolon : Token} : Spells w e → semicolon.kind = .semicolon →
      SpellsStatement (w ++ [semicolon]) (.expr e (e.span.join semicolon.span))
  | letIn {start tok assign semicolon : Token} {n : Name} {w : List Token} {e : Expr} : start.kind = .kwLet →
      SpellsName tok n → assign.kind = .assign → Spells w e → semicolon.kind = .semicolon →
      SpellsStatement (start :: tok :: assign :: (w ++ [semicolon])) (.letIn n e (start.span.join semicolon.span))

/-! ## Names, literals and paths -/

theorem name_spells : Sound name fun w n => ∃ tok, w = [tok] ∧ SpellsName tok n := by
  refine alt_sound ⟨?_, ?_⟩
  · refine (tag_sound _).map ?_
    rintro w tok ⟨rfl, hk⟩
    exact ⟨tok, rfl, .ident hk⟩
  · refine (tag_sound _).map ?_
    rintro w tok ⟨rfl, hk⟩
    exact ⟨tok, rfl, .placeholder hk⟩

theorem literal_spells : Sound literal Spells := by
  refine (oneOf_sound _).map ?_
  rintro w tok ⟨rfl, hk⟩
  refine .literal ?_
  simp only [List.mem_cons, List.not_mem_nil, or_false] at hk
  rcases hk with h | h | h | h | h | h <;> rw [h] <;> decide

theorem path_spells : Sound path Spells := by
  have segment : Sound (preceded (tag .dot) name) SpellsSegment := by
    refine ((tag_sound _).preceded name_spells).mono ?_
    rintro w n ⟨_, _, dot, rfl, ⟨rfl, hdot⟩, tok, rfl, hn⟩
    exact ⟨dot, tok, rfl, hdot, hn⟩
  refine (name_spells.pair (segment.pair segment.many0)).map ?_
  rintro w ⟨first, second, others⟩ ⟨_, _, rfl, ⟨tok, rfl, hfirst⟩, u, v, rfl, hsecond, hothers⟩
  exact .path hfirst ⟨u, v, rfl, hsecond, hothers⟩

/-! ## Operators -/

/-- An operator with its right operand. -/
def SpellsStep (w : List Token) (step : Token × Expr) : Prop :=
  ∃ v, w = step.1 :: v ∧ (binaryOperator? step.1.kind).isSome ∧ Spells v step.2

theorem applyBinary_spells {u v : List Token} {left : Expr} {step : Token × Expr} (hleft : Spells u left)
    (hstep : SpellsStep v step) : Spells (u ++ v) (applyBinary left step) := by
  obtain ⟨w, rfl, known, hright⟩ := hstep
  obtain ⟨op, hop⟩ := Option.isSome_iff_exists.1 known
  unfold applyBinary
  rw [hop]
  exact .binary hop hleft hright

theorem foldl_applyBinary_spells {u v : List Token} {first : Expr} {steps : List (Token × Expr)}
    (hfirst : Spells u first) (hsteps : Repeated SpellsStep v steps) :
    Spells (u ++ v) (steps.foldl applyBinary first) := by
  induction steps generalizing u v first with
  | nil =>
    cases hsteps
    rwa [List.append_nil]
  | cons step steps ih =>
    obtain ⟨w, v, rfl, hstep, hsteps⟩ := hsteps
    rw [← List.append_assoc]
    exact ih (applyBinary_spells hfirst hstep) hsteps

theorem step_spells (operators : List Token.Kind) (known : ∀ k ∈ operators, (binaryOperator? k).isSome)
    {operand : Rule Expr} (h : Sound operand Spells) : Sound (pair (oneOf operators) operand) SpellsStep := by
  refine ((oneOf_sound _).pair h).mono ?_
  rintro w ⟨tok, e⟩ ⟨_, v, rfl, ⟨rfl, hk⟩, hright⟩
  exact ⟨v, rfl, known _ hk, hright⟩

theorem leftAssoc_spells (operators : List Token.Kind) (known : ∀ k ∈ operators, (binaryOperator? k).isSome)
    {operand : Rule Expr} (h : Sound operand Spells) : Sound (leftAssoc operators operand) Spells := by
  refine (h.pair (step_spells operators known h).many0).map ?_
  rintro w ⟨first, steps⟩ ⟨u, v, rfl, hfirst, hsteps⟩
  exact foldl_applyBinary_spells hfirst hsteps

theorem rangeOf_spells {operand : Rule Expr} (h : Sound operand Spells) : Sound (rangeOf operand) Spells := by
  refine (h.pair (step_spells [.dotDot, .dotDotEq] (by decide) h).opt).map ?_
  rintro w ⟨first, step⟩ ⟨u, v, rfl, hfirst, ⟨rfl, rfl⟩ | ⟨step, rfl, hstep⟩⟩
  · rwa [List.append_nil]
  · exact applyBinary_spells hfirst hstep

theorem binary_spells {operand : Rule Expr} (h : Sound operand Spells) : Sound (binary operand) Spells := by
  have product := leftAssoc_spells [.percent, .star, .slash] (by decide) h
  have sum := leftAssoc_spells [.plus, .minus] (by decide) product
  have comparison := leftAssoc_spells [.lt, .gt, .eqEq, .bangEq, .ltEq, .gtEq] (by decide) (rangeOf_spells sum)
  have conjunction := leftAssoc_spells [.andAnd] (by decide) comparison
  exact leftAssoc_spells [.orOr] (by decide) conjunction

/-! ## Parentheses -/

/-- A comma and the element behind it. -/
def SpellsElement (w : List Token) (e : Expr) : Prop := ∃ comma v, w = comma :: v ∧ comma.kind = .comma ∧ Spells v e

theorem exists_elements {w : List Token} {es : List Expr} (h : Repeated SpellsElement w es) :
    ∃ elements : List Element, elements.map Element.value = es ∧ elements.flatMap Element.tokens = w ∧
      (∀ x ∈ elements, Spells x.word x.value) ∧ ∀ x ∈ elements, ∀ tok ∈ x.commas, tok.kind = .comma := by
  induction es generalizing w with
  | nil =>
    cases h
    exact ⟨[], rfl, rfl, by simp, by simp⟩
  | cons e es ih =>
    obtain ⟨_, v, rfl, ⟨comma, u, rfl, hc, he⟩, hes⟩ := h
    obtain ⟨elements, rfl, rfl, words, commas⟩ := ih hes
    refine ⟨⟨[comma], u, e⟩ :: elements, rfl, rfl, ?_, ?_⟩
    · exact List.forall_mem_cons.2 ⟨he, words⟩
    · exact List.forall_mem_cons.2 ⟨by simpa using hc, commas⟩

/-- One or more elements with commas between them. -/
def SpellsElements (w : List Token) (es : List Expr) : Prop :=
  ∃ first others u v, es = first :: others ∧ w = u ++ v ∧ Spells u first ∧ Repeated SpellsElement v others

theorem tuple_spells {expr : Rule Expr} (h : Sound expr Spells) : Sound (tuple expr) Spells := by
  have element : Sound (preceded (tag .comma) expr) SpellsElement := by
    refine ((tag_sound _).preceded h).mono ?_
    rintro w e ⟨_, v, comma, rfl, ⟨rfl, hc⟩, he⟩
    exact ⟨comma, v, rfl, hc, he⟩
  have elements : Sound (separated (tag .comma) expr) SpellsElements := by
    refine (h.pair element.many0).map ?_
    rintro w ⟨first, others⟩ ⟨u, v, rfl, hfirst, hothers⟩
    exact ⟨first, others, u, v, rfl, rfl, hfirst, hothers⟩
  have inside := (elements.pair (tag_sound .comma).opt).opt
  refine ((tag_sound .lParen).pair (inside.pair (tag_sound .rParen))).map ?_
  rintro w ⟨opening, found, closing⟩ ⟨_, _, rfl, ⟨rfl, ho⟩, v, _, rfl, hfound, rfl, hc⟩
  rcases hfound with ⟨rfl, rfl⟩ | ⟨⟨es, comma⟩, rfl, _, t, rfl, ⟨first, others, u, v, rfl, rfl, hfirst,
    hothers⟩, hcomma⟩
  · exact @Spells.tuple opening closing [] [] ho (by simp) (by simp) (by simp) rfl hc
  have trailing : ∀ tok ∈ t, tok.kind = .comma := by
    rcases hcomma with ⟨_, rfl⟩ | ⟨tok, _, rfl, hk⟩
    · simp
    · simpa using hk
  obtain ⟨rest, values, tokens, words, commas⟩ := exists_elements hothers
  -- a comma behind the first element makes a tuple
  have several {comma : Token} {more : List Token} (hk : comma.kind = .comma) (behind : v ++ t = comma :: more) :
      Spells (opening :: (u ++ v ++ t ++ [closing])) (.tuple (first :: others) (opening.span.join closing.span)) := by
    rw [← tokens] at behind ⊢
    rw [← values]
    exact @Spells.tuple opening closing (⟨[], u, first⟩ :: rest) t ho (List.forall_mem_cons.2 ⟨hfirst, words⟩)
      (List.forall_mem_cons.2 ⟨by simp, commas⟩) trailing ⟨rfl, comma, more, hk, behind⟩ hc
  cases others with
  | nil =>
    cases hothers
    rcases hcomma with ⟨rfl, rfl⟩ | ⟨tok, rfl, rfl, hk⟩
    · -- one expression and no comma: the parentheses only group
      simpa using Spells.group ho hfirst hc
    · exact several hk rfl
  | cons second others =>
    obtain ⟨_, y, rfl, ⟨comma, x, rfl, hk, _⟩, _⟩ := hothers
    exact several hk rfl

/-! ## Expressions -/

theorem primary_spells {expr : Rule Expr} (h : Sound expr Spells) : Sound (primary expr) Spells := by
  refine alt_sound ⟨?_, ?_, ?_, ?_, ?_, ?_, ?_, ?_, ?_⟩
  · exact literal_spells
  · exact unimplemented_sound _ _ _
  · exact unimplemented_sound _ _ _
  · exact unimplemented_sound _ _ _
  · exact unimplemented_sound _ _ _
  · exact unimplemented_sound _ _ _
  · exact path_spells
  · refine name_spells.map ?_
    rintro w n ⟨tok, rfl, hn⟩
    exact .name hn
  · exact tuple_spells h

theorem unary_spells {expr : Rule Expr} (h : Sound expr Spells) (depth : Nat) : Sound (unary expr depth) Spells := by
  induction depth with
  | zero => exact primary_spells h
  | succ depth ih =>
    refine alt_sound ⟨?_, ?_⟩
    · refine ((oneOf_sound _).pair ih).map ?_
      rintro w ⟨op, operand⟩ ⟨_, v, rfl, ⟨rfl, hk⟩, hread⟩
      refine .unary ?_ hread
      simp only [List.mem_cons, List.not_mem_nil, or_false] at hk
      rcases hk with h | h <;> rw [h] <;> decide
    · exact primary_spells h

theorem exprWithin_spells (depth : Nat) : Sound (exprWithin depth) Spells := by
  induction depth with
  | zero => exact (@alt_sound _ _ [] trivial).label "expression" _
  | succ depth ih => exact (binary_spells (unary_spells ih _)).label "expression" _

theorem expr_spells : Sound expr Spells := fun i _ _ h => exprWithin_spells (i.left + 1) h

/-! ## Statements and modules -/

theorem letStatement_spells : Sound letStatement SpellsStatement := by
  have head := (tag_sound .kwLet).pair (name_spells.terminated (tag_sound .assign))
  refine (head.pair (expr_spells.pair (tag_sound .semicolon))).map ?_
  rintro w ⟨⟨start, bound⟩, value, semicolon⟩ ⟨_, _, rfl,
    ⟨_, _, rfl, ⟨rfl, hs⟩, _, _, assign, rfl, ⟨tok, rfl, hn⟩, rfl, ha⟩, v, _, rfl, hv, rfl, hsc⟩
  exact .letIn hs hn ha hv hsc

theorem exprStatement_spells : Sound exprStatement SpellsStatement := by
  refine (expr_spells.pair (tag_sound .semicolon)).map ?_
  rintro w ⟨value, semicolon⟩ ⟨u, _, rfl, hv, rfl, hsc⟩
  exact .expr hv hsc

theorem node_spells : Sound node SpellsStatement := by
  refine alt_sound ⟨?_, ?_⟩
  · exact unimplemented_sound _ _ _
  · refine alt_sound ⟨?_, ?_⟩
    · exact letStatement_spells
    · exact exprStatement_spells

theorem parseModule_spells {toks : List Token} {statements : List Statement}
    (h : parseModule toks = .ok statements) : Repeated SpellsStatement toks statements := by
  obtain ⟨j, hm, hj⟩ := parseModule_eq_ok.1 h
  obtain ⟨w, hw, hr⟩ := node_spells.many0 hm
  rw [unread_start, hj, List.append_nil] at hw
  rwa [hw]

end LetStack.Grammar
