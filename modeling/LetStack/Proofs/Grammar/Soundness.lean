import LetStack.Proofs.Grammar.Derivation
import LetStack.Proofs.Grammar.RuleLaws

/-!
Every rule of the grammar reads tokens that derive the form of its value, and the literals of the value are among them
with text and span (`parseModule_sound`).
-/

namespace LetStack.Grammar
open Ast Rule

/-- A literal that is a token of the word. -/
def FromToken (w : List Token) (l : PlacedLiteral) : Prop :=
  ∃ tok ∈ w, (tok.kind, l.kind) ∈ literalKinds ∧ l.raw = tok.text ∧ l.span = tok.span

theorem FromToken.mono {u w : List Token} {l : PlacedLiteral} (h : FromToken u l)
    (hu : ∀ tok ∈ u, tok ∈ w) : FromToken w l := by
  obtain ⟨tok, hm, ht⟩ := h
  exact ⟨tok, hu tok hm, ht⟩

/-- The word derives the form of the expression, and the literals of the expression are in it. -/
structure Reads (level : Level) (w : List Token) (e : Expr) : Prop where
  derives : Derives (.expr level e.form) w
  literals : ∀ l ∈ e.literals, FromToken w l

/-! ## Names, literals and paths -/

theorem name_sound : Sound name fun w n => Derives (.name n.form) w := by
  refine alt_sound ⟨?_, ?_⟩
  · refine (tag_sound _).map ?_
    rintro w tok ⟨rfl, hk⟩
    exact .ident hk
  · refine (tag_sound _).map ?_
    rintro w tok ⟨rfl, hk⟩
    exact .placeholder hk

theorem literal_sound : Sound literal (Reads .primary) := by
  refine (oneOf_sound _).map ?_
  rintro w tok ⟨rfl, hk⟩
  have hkind : (tok.kind, (literalKind? tok.kind).getD .char) ∈ literalKinds := by
    simp only [List.mem_cons, List.not_mem_nil, or_false] at hk
    rcases hk with h | h | h | h | h | h <;> rw [h] <;> decide
  refine ⟨.literal hkind, ?_⟩
  intro l hl
  cases List.mem_singleton.1 hl
  exact ⟨tok, List.mem_cons_self, hkind, rfl, rfl⟩

/-- A segment read behind a dot. -/
def SegmentRead (w : List Token) (n : Name) : Prop :=
  ∃ (u v : List Token) (dot : Token), w = u ++ v ∧ (u = [dot] ∧ dot.kind = .dot) ∧
    Derives (.name n.form) v

theorem segments_derives {w : List Token} {ns : List Name} (h : Repeated SegmentRead w ns) :
    Derives (.segments (ns.map Name.form)) w := by
  induction ns generalizing w with
  | nil => cases h; exact .noSegment
  | cons n ns ih =>
    obtain ⟨u, v, rfl, ⟨_, u', dot, rfl, ⟨rfl, hdot⟩, hn⟩, hns⟩ := h
    exact .segment hdot hn (ih hns)

theorem path_sound : Sound path (Reads .primary) := by
  have segment : Sound (preceded (tag .dot) name) SegmentRead := (tag_sound _).preceded name_sound
  refine (name_sound.pair (segment.pair segment.many0)).map ?_
  rintro w ⟨first, second, others⟩ ⟨u, v, rfl, hfirst, u', v', rfl, hsecond, hothers⟩
  have hall : Repeated SegmentRead (u' ++ v') (second :: others) := ⟨u', v', rfl, hsecond, hothers⟩
  refine ⟨.path hfirst (segments_derives hall), ?_⟩
  intro l hl
  cases hl

/-! ## Operators -/

def stepForm (step : Token × Expr) : Operator × ExprForm :=
  ((binaryOperator? step.1.kind).getD .or, step.2.form)

theorem foldl_applyBinary_form (first : Expr) (steps : List (Token × Expr)) :
    (steps.foldl applyBinary first).form = grouped first.form (steps.map stepForm) := by
  induction steps generalizing first with
  | nil => rfl
  | cons step steps ih => exact ih (applyBinary first step)

theorem foldl_applyBinary_literals {first : Expr} {steps : List (Token × Expr)} {l : PlacedLiteral}
    (h : l ∈ (steps.foldl applyBinary first).literals) :
    l ∈ first.literals ∨ ∃ step ∈ steps, l ∈ step.2.literals := by
  induction steps generalizing first with
  | nil => exact .inl h
  | cons step steps ih =>
    rcases ih h with h | ⟨s, hs, hl⟩
    · rcases List.mem_append.1 h with h | h
      · exact .inl h
      · exact .inr ⟨step, List.mem_cons_self, h⟩
    · exact .inr ⟨s, List.mem_cons_of_mem _ hs, hl⟩

theorem binaryOperator?_of_mem {level : Level} {k : Token.Kind} {op : Operator}
    (h : (k, op) ∈ level.operators) : binaryOperator? k = some op := by
  have all : ∀ pair ∈ level.operators, binaryOperator? pair.1 = some pair.2 := by
    cases level <;> decide
  exact all _ h

/-- An operator of a level read with its right operand. -/
def StepRead (level : Level) (w : List Token) (step : Token × Expr) : Prop :=
  ∃ u v, w = u ++ v ∧ (u = [step.1] ∧ step.1.kind ∈ level.kinds) ∧ Reads level.tighter v step.2

theorem steps_derives {level : Level} {w : List Token} {steps : List (Token × Expr)}
    (h : Repeated (StepRead level) w steps) :
    Derives (.steps level (steps.map stepForm)) w ∧
      ∀ step ∈ steps, ∀ l ∈ step.2.literals, FromToken w l := by
  induction steps generalizing w with
  | nil => cases h; exact ⟨.noStep, fun _ hs => nomatch hs⟩
  | cons step steps ih =>
    obtain ⟨_, v, rfl, ⟨_, u, rfl, ⟨rfl, hk⟩, hread⟩, hsteps⟩ := h
    obtain ⟨⟨k, op⟩, hop, rfl⟩ := List.mem_map.1 hk
    obtain ⟨hd, hl⟩ := ih hsteps
    have hform : stepForm step = (op, step.2.form) := by
      rw [stepForm, binaryOperator?_of_mem hop, Option.getD_some]
    constructor
    · rw [List.map_cons, hform]
      exact .step hop hread.derives hd
    · intro s hs l hin
      rcases List.mem_cons.1 hs with rfl | hs
      · exact (hread.literals l hin).mono fun tok ht =>
          List.mem_cons_of_mem _ (List.mem_append_left _ ht)
      · exact (hl s hs l hin).mono fun tok ht => List.mem_append_right _ ht

theorem leftAssoc_sound {level : Level} (hne : level.operators ≠ []) {operand : Rule Expr}
    (h : Sound operand (Reads level.tighter)) : Sound (leftAssoc level.kinds operand) (Reads level) := by
  have step : Sound (pair (oneOf level.kinds) operand) (StepRead level) := (oneOf_sound _).pair h
  refine (h.pair step.many0).map ?_
  rintro w ⟨first, steps⟩ ⟨u, v, rfl, hfirst, hsteps⟩
  obtain ⟨hd, hl⟩ := steps_derives hsteps
  constructor
  · rw [foldl_applyBinary_form]
    exact .chain hne hfirst.derives hd
  · intro l hin
    rcases foldl_applyBinary_literals hin with hin | ⟨s, hs, hin⟩
    · exact (hfirst.literals l hin).mono fun tok ht => List.mem_append_left _ ht
    · exact (hl s hs l hin).mono fun tok ht => List.mem_append_right _ ht

theorem rangeOf_sound {operand : Rule Expr} (h : Sound operand (Reads .sum)) :
    Sound (rangeOf operand) (Reads .range) := by
  refine (h.pair ((oneOf_sound _).pair h).opt).map ?_
  rintro w ⟨first, step⟩ ⟨u, v, rfl, hfirst, ⟨rfl, rfl⟩ | ⟨step, rfl, _, v, rfl, ⟨rfl, hk⟩, hread⟩⟩
  · rw [List.append_nil]
    exact ⟨.noRange hfirst.derives, hfirst.literals⟩
  · have hop : (step.1.kind, (binaryOperator? step.1.kind).getD .or) ∈ rangeOperators := by
      simp only [List.mem_cons, List.not_mem_nil, or_false] at hk
      rcases hk with h | h <;> rw [h] <;> decide
    refine ⟨.range hop hfirst.derives hread.derives, fun l hin => ?_⟩
    rcases List.mem_append.1 hin with hin | hin
    · exact (hfirst.literals l hin).mono fun tok ht => List.mem_append_left _ ht
    · exact (hread.literals l hin).mono fun tok ht =>
        List.mem_append_right _ (List.mem_cons_of_mem _ ht)

theorem binary_sound {operand : Rule Expr} (h : Sound operand (Reads .prefixed)) :
    Sound (binary operand) (Reads .or) := by
  have product : Sound (leftAssoc Level.product.kinds operand) (Reads .product) :=
    leftAssoc_sound (by decide) h
  have sum : Sound (leftAssoc Level.sum.kinds _) (Reads .sum) :=
    leftAssoc_sound (by decide) product
  have comparison : Sound (leftAssoc Level.comparison.kinds _) (Reads .comparison) :=
    leftAssoc_sound (by decide) (rangeOf_sound sum)
  have conjunction : Sound (leftAssoc Level.and.kinds _) (Reads .and) :=
    leftAssoc_sound (by decide) comparison
  have disjunction : Sound (leftAssoc Level.or.kinds _) (Reads .or) :=
    leftAssoc_sound (by decide) conjunction
  exact disjunction

/-! ## Parentheses -/

/-- An element read behind a comma. -/
def ElementRead (w : List Token) (e : Expr) : Prop :=
  ∃ (u v : List Token) (comma : Token), w = u ++ v ∧ (u = [comma] ∧ comma.kind = .comma) ∧
    Reads .or v e

theorem elements_derives {w : List Token} {es : List Expr} (h : Repeated ElementRead w es) :
    Derives (.elements (es.map Expr.form)) w ∧ ∀ e ∈ es, ∀ l ∈ e.literals, FromToken w l := by
  induction es generalizing w with
  | nil => cases h; exact ⟨.noElement, fun _ he => nomatch he⟩
  | cons e es ih =>
    obtain ⟨_, v, rfl, ⟨_, u, comma, rfl, ⟨rfl, hc⟩, hread⟩, hes⟩ := h
    obtain ⟨hd, hl⟩ := ih hes
    refine ⟨.element hc hread.derives hd, fun e' he l hin => ?_⟩
    rcases List.mem_cons.1 he with rfl | he
    · exact (hread.literals l hin).mono fun tok ht =>
        List.mem_cons_of_mem _ (List.mem_append_left _ ht)
    · exact (hl e' he l hin).mono fun tok ht => List.mem_append_right _ ht

/-- One or more elements with commas between them. -/
def ElementsRead (w : List Token) (es : List Expr) : Prop :=
  ∃ first others u v, es = first :: others ∧ w = u ++ v ∧ Reads .or u first ∧
    Repeated ElementRead v others

theorem tuple_sound {expr : Rule Expr} (h : Sound expr (Reads .or)) :
    Sound (tuple expr) (Reads .primary) := by
  have element : Sound (preceded (tag .comma) expr) ElementRead := (tag_sound _).preceded h
  have elements : Sound (separated (tag .comma) expr) ElementsRead := by
    refine (h.pair element.many0).map ?_
    rintro w ⟨first, others⟩ ⟨u, v, rfl, hfirst, hothers⟩
    exact ⟨first, others, u, v, rfl, rfl, hfirst, hothers⟩
  have inside := (elements.pair (tag_sound .comma).opt).opt
  refine ((tag_sound .lParen).pair (inside.pair (tag_sound .rParen))).map ?_
  rintro w ⟨opening, found, closing⟩ ⟨_, _, rfl, ⟨rfl, ho⟩, v, _, rfl, hfound, rfl, hc⟩
  rcases hfound with ⟨rfl, rfl⟩ | ⟨⟨es, comma⟩, rfl, _, t, rfl, ⟨first, others, u, v, rfl, rfl,
    hfirst, hothers⟩, hcomma⟩
  · exact ⟨.unit ho hc, fun l hin => nomatch hin⟩
  · obtain ⟨hd, hl⟩ := elements_derives hothers
    have hfrom : ∀ l ∈ Expr.allLiterals (first :: others),
        FromToken ([opening] ++ (u ++ v ++ t ++ [closing])) l := by
      intro l hin
      obtain ⟨e, he, hle⟩ := Expr.mem_allLiterals.1 hin
      rcases List.mem_cons.1 he with rfl | he
      · exact (hfirst.literals l hle).mono fun tok ht => by simp [ht]
      · exact (hl e he l hle).mono fun tok ht => by simp [ht]
    cases others with
    | nil =>
      cases hothers
      rcases hcomma with ⟨rfl, rfl⟩ | ⟨tok, rfl, rfl, hk⟩
      · -- one expression and no comma: the parentheses only group
        refine ⟨?_, fun l hin => hfrom l (Expr.mem_allLiterals.2 ⟨first, List.mem_cons_self, hin⟩)⟩
        simpa using Derives.group ho hfirst.derives hc
      · refine ⟨?_, hfrom⟩
        simpa [Expr.form, Expr.forms] using Derives.single ho hfirst.derives hk hc
    | cons second others =>
      refine ⟨?_, hfrom⟩
      have htrailing : t = [] ∨ ∃ comma : Token, comma.kind = .comma ∧ t = [comma] := by
        rcases hcomma with ⟨_, rfl⟩ | ⟨tok, _, rfl, hk⟩
        · exact .inl rfl
        · exact .inr ⟨tok, hk, rfl⟩
      have := Derives.several ho hfirst.derives hd htrailing hc
      simpa [Expr.form, Expr.forms, Expr.forms_eq_map] using this

/-! ## Expressions -/

theorem primary_sound {expr : Rule Expr} (h : Sound expr (Reads .or)) :
    Sound (primary expr) (Reads .primary) := by
  refine alt_sound ⟨?_, ?_, ?_, ?_, ?_, ?_, ?_, ?_, ?_⟩
  · exact literal_sound
  · exact unimplemented_sound _ _ _
  · exact unimplemented_sound _ _ _
  · exact unimplemented_sound _ _ _
  · exact unimplemented_sound _ _ _
  · exact unimplemented_sound _ _ _
  · exact path_sound
  · exact name_sound.map fun w n hn => ⟨.plainName hn, fun l hin => nomatch hin⟩
  · exact tuple_sound h

theorem unary_sound {expr : Rule Expr} (h : Sound expr (Reads .or)) (depth : Nat) :
    Sound (unary expr depth) (Reads .prefixed) := by
  have bare : Sound (primary expr) (Reads .prefixed) :=
    (primary_sound h).mono fun w e he => ⟨.noPrefix he.derives, he.literals⟩
  induction depth with
  | zero => exact bare
  | succ depth ih =>
    refine alt_sound ⟨?_, ?_⟩
    · refine ((oneOf_sound _).pair ih).map ?_
      rintro w ⟨op, operand⟩ ⟨_, v, rfl, ⟨rfl, hk⟩, hread⟩
      have hop : (op.kind, (prefixOperator? op.kind).getD .neg) ∈ prefixOperators := by
        simp only [List.mem_cons, List.not_mem_nil, or_false] at hk
        rcases hk with h | h <;> rw [h] <;> decide
      exact ⟨.prefixed hop hread.derives,
        fun l hin => (hread.literals l hin).mono fun tok ht => List.mem_cons_of_mem _ ht⟩
    · exact bare

theorem exprWithin_sound (depth : Nat) : Sound (exprWithin depth) (Reads .or) := by
  induction depth with
  | zero => exact (@alt_sound _ _ [] trivial).label "expression" _
  | succ depth ih => exact (binary_sound (unary_sound ih _)).label "expression" _

theorem expr_sound : Sound expr (Reads .or) := fun i _ _ h => exprWithin_sound (i.left + 1) h

/-! ## Statements and modules -/

/-- The word derives the form of the statement, and the literals of its expression are in it. -/
structure StatementRead (w : List Token) (s : Statement) : Prop where
  derives : Derives (.statement s.form) w
  literals : ∀ l ∈ s.value.literals, FromToken w l

theorem letStatement_sound : Sound letStatement StatementRead := by
  have head := (tag_sound .kwLet).pair (name_sound.terminated (tag_sound .assign))
  refine (head.pair (expr_sound.pair (tag_sound .semicolon))).map ?_
  rintro w ⟨⟨start, bound⟩, value, semicolon⟩ ⟨_, _, rfl,
    ⟨_, _, rfl, ⟨rfl, hs⟩, u, _, assign, rfl, hn, rfl, ha⟩, v, _, rfl, hv, rfl, hsc⟩
  refine ⟨?_, fun l hin => (hv.literals l hin).mono fun tok ht => by simp [ht]⟩
  simpa [Statement.form] using Derives.letStatement hs hn ha hv.derives hsc

theorem exprStatement_sound : Sound exprStatement StatementRead := by
  refine (expr_sound.pair (tag_sound .semicolon)).map ?_
  rintro w ⟨value, semicolon⟩ ⟨u, _, rfl, hv, rfl, hsc⟩
  exact ⟨.exprStatement hv.derives hsc,
    fun l hin => (hv.literals l hin).mono fun tok ht => List.mem_append_left _ ht⟩

theorem node_sound : Sound node StatementRead := by
  refine alt_sound ⟨?_, ?_⟩
  · exact unimplemented_sound _ _ _
  · refine alt_sound ⟨?_, ?_⟩
    · exact letStatement_sound
    · exact exprStatement_sound

theorem statements_derives {w : List Token} {ss : List Statement} (h : Repeated StatementRead w ss) :
    Derives (.module (ss.map Statement.form)) w ∧
      ∀ s ∈ ss, ∀ l ∈ s.value.literals, FromToken w l := by
  induction ss generalizing w with
  | nil => cases h; exact ⟨.noStatement, fun _ hs => nomatch hs⟩
  | cons s ss ih =>
    obtain ⟨u, v, rfl, hread, hss⟩ := h
    obtain ⟨hd, hl⟩ := ih hss
    refine ⟨.statements hread.derives hd, fun s' hs l hin => ?_⟩
    rcases List.mem_cons.1 hs with rfl | hs
    · exact (hread.literals l hin).mono fun tok ht => List.mem_append_left _ ht
    · exact (hl s' hs l hin).mono fun tok ht => List.mem_append_right _ ht

theorem unread_start (toks : List Token) : ({ tokens := toks.toArray } : Input).unread = toks := rfl

theorem parseModule_eq_ok {toks : List Token} {statements : List Statement} :
    parseModule toks = .ok statements ↔
      ∃ j, many0 node { tokens := toks.toArray } = .ok (statements, j) ∧ j.unread = [] := by
  have hall (j : Input) :
      allConsuming (many0 node) { tokens := toks.toArray } = .ok (statements, j) ↔ _ :=
    allConsuming_eq_ok
  simp only [← hall]
  unfold parseModule
  dsimp only
  cases allConsuming (many0 node) { tokens := toks.toArray } with
  | error e =>
    -- whatever the cause, the parse fails
    constructor
    · intro h
      split at h
      · next he => cases he
      · next he _ =>
        cases he
        split at h <;> cases h
    · rintro ⟨j, hj⟩
      cases hj
  | ok v =>
    obtain ⟨ss, k⟩ := v
    constructor
    · intro h
      cases h
      exact ⟨k, rfl⟩
    · rintro ⟨j, hj⟩
      cases hj
      rfl

theorem parseModule_sound {toks : List Token} {statements : List Statement}
    (h : parseModule toks = .ok statements) :
    Derives (.module (statements.map Statement.form)) toks ∧
      ∀ s ∈ statements, ∀ l ∈ s.value.literals, FromToken toks l := by
  obtain ⟨j, hm, hj⟩ := parseModule_eq_ok.1 h
  obtain ⟨w, hw, hr⟩ := node_sound.many0 hm
  rw [unread_start, hj, List.append_nil] at hw
  rw [hw]
  exact statements_derives hr

end LetStack.Grammar
