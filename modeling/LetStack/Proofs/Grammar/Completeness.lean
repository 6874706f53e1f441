import LetStack.Proofs.Grammar.Soundness

/-!
What is derivable is parsed. The token behind a derived phrase decides where its expression ends (`Stops`), and every
alternative of `alt` before the right one misses on the first token or the second, so that ordered choice and greedy
repetition lose no derivation (`parse_of_derives`, `parseModule_complete`).
-/

namespace LetStack.Grammar
open Ast Rule

/-! ## Where an expression ends -/

/-- The number of a level, from loose to tight. -/
def Level.rank : Level → Nat
  | .or => 0
  | .and => 1
  | .comparison => 2
  | .range => 3
  | .sum => 4
  | .product => 5
  | .prefixed => 6
  | .primary => 7

/-- The number of the tightest level at which a token goes on with the expression before it. -/
def tightness? : Token.Kind → Option Nat
  | .orOr => some 0
  | .andAnd => some 1
  | .eqEq | .bangEq | .lt | .ltEq | .gt | .gtEq => some 2
  | .dotDot | .dotDotEq => some 3
  | .plus | .minus => some 4
  | .star | .slash | .percent => some 5
  | .dot | .lBrace => some 7
  | _ => none

/-- The first of the tokens does not go on with an expression of the level. -/
def Stops (level : Level) (ts : List Token) : Prop :=
  ∀ tok ∈ ts.head?, ∀ n, tightness? tok.kind = some n → n < level.rank

theorem Level.rank_le_tighter (level : Level) : level.rank ≤ level.tighter.rank := by
  cases level <;> decide

variable {ts v rest u w : List Token} {tok closing opening : Token} {op : Operator} {steps : List (Operator × ExprForm)}
  {n : NameForm} {t first : ExprForm}

theorem Stops.tighter {level : Level} (h : Stops level ts) : Stops level.tighter ts := by
  intro tok ht n hn
  exact Nat.lt_of_lt_of_le (h tok ht n hn) level.rank_le_tighter

/-- A token that goes on with no expression ends one of every level. -/
theorem stops_of_none {level : Level} (h : tightness? tok.kind = none) : Stops level (tok :: ts) := by
  intro t ht n hn
  cases ht
  rw [h] at hn
  cases hn

theorem stops_of_operator {level : Level} (h : (tok.kind, op) ∈ level.operators) : Stops level.tighter (tok :: ts) := by
  have all : ∀ pair ∈ level.operators, ∀ n, tightness? pair.1 = some n → n < level.tighter.rank := by
    intro pair hp n hn
    have hrank : ∀ pair ∈ level.operators, tightness? pair.1 = some level.rank := by
      cases level <;> decide
    have hlt : level.operators ≠ [] → level.rank < level.tighter.rank := by cases level <;> decide
    rw [hrank pair hp] at hn
    cases hn
    exact hlt (List.ne_nil_of_mem hp)
  intro t ht n hn
  cases ht
  exact all _ h n hn

theorem stops_of_range (h : (tok.kind, op) ∈ rangeOperators) : Stops .sum (tok :: ts) := by
  have all : ∀ pair ∈ rangeOperators, tightness? pair.1 = some 3 := by decide
  intro t ht n hn
  cases ht
  rw [all _ h] at hn
  cases hn
  decide

/-- An operand ends before the next operator, or where the whole chain does. -/
theorem Derives.steps_stop {level : Level} (h : Derives (.steps level steps) v) (hrest : Stops level.tighter rest) :
    Stops level.tighter (v ++ rest) := by
  cases h with
  | noStep => exact hrest
  | step hop => exact stops_of_operator hop

theorem Derives.elements_stop {ts : List ExprForm} (h : Derives (.elements ts) v) (hrest : Stops .or rest) :
    Stops .or (v ++ rest) := by
  cases h with
  | noElement => exact hrest
  | element hc => exact stops_of_none (by rw [hc]; rfl)

theorem Stops.headNotIn {level : Level} {kinds : List Token.Kind} (h : Stops level ts)
    (hk : ∀ k ∈ kinds, ∃ n, tightness? k = some n ∧ level.rank ≤ n) : HeadNotIn kinds ts := by
  intro tok ht hin
  obtain ⟨n, hn, hle⟩ := hk _ hin
  exact absurd (h tok ht n hn) (Nat.not_lt.2 hle)

theorem Stops.no_operator {level : Level} (h : Stops level ts) : HeadNotIn level.kinds ts := by
  refine h.headNotIn ?_
  have : ∀ k ∈ level.kinds, tightness? k = some level.rank := by cases level <;> decide
  exact fun k hk => ⟨_, this k hk, Nat.le_refl _⟩

theorem headNotIn_cons {kinds : List Token.Kind} (h : tok.kind ∉ kinds) : HeadNotIn kinds (tok :: ts) := by
  intro t ht
  cases ht
  exact h

/-! ## The rule of each level -/

/-- The rule for expressions of a level: `inner` reads what stands in parentheses, and at most `depth`
prefix operators stand in a row. -/
def ruleAt (inner : Rule Expr) (depth : Nat) (level : Level) : Rule Expr :=
  let prefixed := unary inner depth
  let product := leftAssoc Level.product.kinds prefixed
  let sum := leftAssoc Level.sum.kinds product
  let range := rangeOf sum
  let comparison := leftAssoc Level.comparison.kinds range
  let conjunction := leftAssoc Level.and.kinds comparison
  match level with
  | .or => leftAssoc Level.or.kinds conjunction
  | .and => conjunction
  | .comparison => comparison
  | .range => range
  | .sum => sum
  | .product => product
  | .prefixed => prefixed
  | .primary => primary inner

theorem ruleAt_chain {level : Level} (h : level.operators ≠ []) (inner : Rule Expr) (depth : Nat) :
    ruleAt inner depth level = leftAssoc level.kinds (ruleAt inner depth level.tighter) := by
  cases level with
  | range | prefixed | primary => exact absurd rfl h
  | _ => rfl

theorem exprWithin_succ (depth : Nat) :
    exprWithin (depth + 1) =
      label (ruleAt (exprWithin depth) (depth + 1) .or) "expression" .expectedExpression := rfl

/-- What a parse makes of a phrase. An expression is read by the rule of its level when the tokens
behind it end it; the repeated parts likewise. -/
def Parsed : Phrase → List Token → Prop
  | .name n, w => ∀ rest, name.Yields (w ++ rest) (fun a => a.form = n) rest
  | .segments ns, w => ∀ rest, Stops .primary rest →
      (many0 (preceded (tag .dot) name)).Yields (w ++ rest) (fun as => as.map Name.form = ns) rest
  | .expr level t, w => ∀ depth n rest, w.length ≤ depth + 1 → w.length ≤ n → Stops level rest →
      (ruleAt (exprWithin depth) n level).Yields (w ++ rest) (fun e => e.form = t) rest
  | .steps level ss, w => ∀ depth n rest, w.length ≤ depth + 1 → w.length ≤ n → Stops level rest →
      (many0 (pair (oneOf level.kinds) (ruleAt (exprWithin depth) n level.tighter))).Yields
        (w ++ rest) (fun as => as.map stepForm = ss) rest
  | .elements ts, w => ∀ depth rest, w.length ≤ depth → Stops .or rest →
      (preceded (tag .comma) (exprWithin depth)).Misses rest →
      (many0 (preceded (tag .comma) (exprWithin depth))).Yields (w ++ rest)
        (fun as => as.map Expr.form = ts) rest
  | .statement s, w => ∀ rest, node.Yields (w ++ rest) (fun a => a.form = s) rest
  | .module ss, w => (many0 node).Yields w (fun as => as.map Statement.form = ss) []

/-! ## Names and paths -/

theorem ident_yields (h : tok.kind = .ident) (rest : List Token) :
    name.Yields ([tok] ++ rest) (fun a => a.form = .ident tok.text) rest := by
  have hit : (map (tag .ident) fun t => Name.ident t.text t.span).Yields (tok :: rest)
      (fun a => a.form = .ident tok.text) rest :=
    (tag_yields h).map (by rintro _ rfl; rfl)
  exact alt_yields (fun s hs => absurd hs List.not_mem_nil) hit

theorem placeholder_yields (h : tok.kind = .placeholder) (rest : List Token) :
    name.Yields ([tok] ++ rest) (fun a => a.form = .placeholder) rest := by
  have miss : ∀ s ∈ [map (tag .ident) fun t => Name.ident t.text t.span], s.Misses (tok :: rest) := by
    intro s hs
    cases List.mem_singleton.1 hs
    exact (tag_misses (headNotIn_cons (by rw [h]; decide))).map _
  have hit : (map (tag .placeholder) fun t => Name.placeholder t.span).Yields (tok :: rest)
      (fun a => a.form = .placeholder) rest :=
    (tag_yields h).map (by rintro _ rfl; rfl)
  exact alt_yields miss hit

theorem name_misses (h : tok.kind ∉ [Token.Kind.ident, .placeholder]) : name.Misses (tok :: ts) := by
  refine alt_misses fun r hr => ?_
  simp only [List.mem_cons, List.not_mem_nil, or_false, not_or] at hr h
  rcases hr with rfl | rfl
  · exact (tag_misses (headNotIn_cons (by simpa using h.1))).map _
  · exact (tag_misses (headNotIn_cons (by simpa using h.2))).map _

theorem segment_parsed {dot : Token} {ns : List NameForm} (hdot : dot.kind = .dot) (hn : Parsed (.name n) u)
    (hns : Parsed (.segments ns) v) : Parsed (.segments (n :: ns)) (dot :: (u ++ v)) := by
  intro rest hrest
  have segment : (preceded (tag .dot) name).Yields (dot :: (u ++ (v ++ rest)))
      (fun a => a.form = n) (v ++ rest) :=
    ((tag_yields hdot).pair (hn (v ++ rest))).map fun p hp => hp.2
  rw [List.cons_append, List.append_assoc]
  refine (many0_goes_on segment ?_ (hns rest hrest)).mono ?_
  · simp only [List.length_cons, List.length_append]
    omega
  · rintro _ ⟨b, bs, rfl, hb, hbs⟩
    rw [List.map_cons, hb, hbs]

/-! ## Chains of operators -/

theorem noStep_parsed (level : Level) : Parsed (.steps level []) [] := by
  intro depth n rest _ _ hrest
  refine (many0_stops (.inr ?_)).mono (by rintro _ rfl; rfl)
  exact (oneOf_misses hrest.no_operator).pair _

theorem step_parsed {level : Level} (hop : (tok.kind, op) ∈ level.operators) (ht : Parsed (.expr level.tighter t) u)
    (hd : Derives (.steps level steps) v) (hs : Parsed (.steps level steps) v) :
    Parsed (.steps level ((op, t) :: steps)) (tok :: (u ++ v)) := by
  intro depth n rest hdepth hn hrest
  simp only [List.length_cons, List.length_append] at hdepth hn
  have hk : tok.kind ∈ level.kinds := List.mem_map.2 ⟨_, hop, rfl⟩
  have hstops : Stops level.tighter (v ++ rest) := hd.steps_stop hrest.tighter
  have operand := ht depth n (v ++ rest) (by omega) (by omega) hstops
  have step : (pair (oneOf level.kinds) (ruleAt (exprWithin depth) n level.tighter)).Yields
      (tok :: (u ++ (v ++ rest))) (fun p => stepForm p = (op, t)) (v ++ rest) := by
    refine ((oneOf_yields hk).pair operand).mono ?_
    rintro ⟨tok', e⟩ ⟨rfl, he⟩
    simp only [stepForm, binaryOperator?_of_mem hop, Option.getD_some, he]
  rw [List.cons_append, List.append_assoc]
  refine (many0_goes_on step ?_ (hs depth n rest (by omega) (by omega) hrest)).mono ?_
  · simp only [List.length_cons, List.length_append]
    omega
  · rintro _ ⟨b, bs, rfl, hb, hbs⟩
    rw [List.map_cons, hb, hbs]

theorem chain_parsed {level : Level} (hne : level.operators ≠ []) (hf : Parsed (.expr level.tighter first) u)
    (hd : Derives (.steps level steps) v) (hs : Parsed (.steps level steps) v) :
    Parsed (.expr level (grouped first steps)) (u ++ v) := by
  intro depth n rest hdepth hn hrest
  simp only [List.length_append] at hdepth hn
  have hstops : Stops level.tighter (v ++ rest) := hd.steps_stop hrest.tighter
  rw [ruleAt_chain hne, List.append_assoc]
  refine ((hf depth n (v ++ rest) (by omega) (by omega) hstops).pair
    (hs depth n rest (by omega) (by omega) hrest)).map ?_
  rintro ⟨e, as⟩ ⟨he, has⟩
  rw [foldl_applyBinary_form, he, has]

theorem noRange_parsed (h : Parsed (.expr .sum t) w) : Parsed (.expr .range t) w := by
  intro depth n rest hdepth hn hrest
  have miss : (pair (oneOf [.dotDot, .dotDotEq]) (ruleAt (exprWithin depth) n .sum)).Misses rest :=
    (oneOf_misses (hrest.headNotIn (by decide))).pair _
  refine ((h depth n rest hdepth hn hrest.tighter).pair miss.opt).map ?_
  rintro ⟨e, _⟩ ⟨he, rfl⟩
  exact he

theorem range_parsed {l r : ExprForm} (hop : (tok.kind, op) ∈ rangeOperators) (hl : Parsed (.expr .sum l) u)
    (hr : Parsed (.expr .sum r) v) : Parsed (.expr .range (.binary op l r)) (u ++ tok :: v) := by
  intro depth n rest hdepth hn hrest
  simp only [List.length_append, List.length_cons] at hdepth hn
  have hk : tok.kind ∈ rangeOperators.map Prod.fst := List.mem_map.2 ⟨_, hop, rfl⟩
  have hbin : binaryOperator? tok.kind = some op := by
    have all : ∀ pair ∈ rangeOperators, binaryOperator? pair.1 = some pair.2 := by decide
    exact all _ hop
  have hstops : Stops .sum (tok :: (v ++ rest)) := stops_of_range hop
  have step := ((oneOf_yields hk).pair (hr depth n rest (by omega) (by omega) hrest.tighter)).opt
  rw [List.append_assoc, List.cons_append]
  refine ((hl depth n (tok :: (v ++ rest)) (by omega) (by omega) hstops).pair step).map ?_
  rintro ⟨e, _⟩ ⟨he, ⟨tok', e'⟩, rfl, rfl, he'⟩
  simp only [applyBinary, hbin, Option.getD_some, Expr.form]
  rw [← he, ← he']

/-! ## Primary expressions -/

/-- What is tried before paths, names and parentheses: literals and the forms without grammar. -/
def guards : List (Rule Expr) :=
  [literal,
   unimplemented (tag .kwMatch) "match",
   unimplemented (tag .kwIf) "if",
   unimplemented (oneOf [.pipe, .orOr, .kwFn]) "closure",
   unimplemented (tag .lBracket) "array",
   unimplemented (terminated (tag .ident) (tag .lBrace)) "struct/union init"]

theorem guards_miss (hk : tok.kind ∈ [Token.Kind.ident, .placeholder, .lParen, .rParen])
    (hts : tok.kind = .ident → HeadNotIn [.lBrace] ts) : ∀ r ∈ guards, r.Misses (tok :: ts) := by
  have other {kinds : List Token.Kind}
      (h : ∀ k ∈ [Token.Kind.ident, .placeholder, .lParen, .rParen], k ∉ kinds) :
      HeadNotIn kinds (tok :: ts) := headNotIn_cons (h _ hk)
  intro r hr
  simp only [guards, List.mem_cons, List.not_mem_nil, or_false] at hr
  rcases hr with rfl | rfl | rfl | rfl | rfl | rfl
  · exact (oneOf_misses (other (by decide))).map _
  · exact (tag_misses (other (by decide))).unimplemented _
  · exact (tag_misses (other (by decide))).unimplemented _
  · exact (oneOf_misses (other (by decide))).unimplemented _
  · exact (tag_misses (other (by decide))).unimplemented _
  · -- only an identifier gets past its first token, and no brace follows it
    refine Misses.unimplemented (Misses.map ?_ _) _
    by_cases hident : tok.kind = .ident
    · exact (tag_yields hident).pair_misses (tag_misses (hts hident))
    · exact (tag_misses (headNotIn_cons (by simpa using hident))).pair _

theorem literal_parsed {kind : LiteralKind} (h : (tok.kind, kind) ∈ literalKinds) :
    Parsed (.expr .primary (.literal kind tok.text)) [tok] := by
  intro depth n rest _ _ _
  have hk : tok.kind ∈ literalKinds.map Prod.fst := List.mem_map.2 ⟨_, h, rfl⟩
  have hkind : literalKind? tok.kind = some kind := by
    have all : ∀ pair ∈ literalKinds, literalKind? pair.1 = some pair.2 := by decide
    exact all _ h
  have hit : literal.Yields (tok :: rest) (fun e => e.form = .literal kind tok.text) rest := by
    refine (oneOf_yields hk).map ?_
    rintro _ rfl
    rw [hkind]
    rfl
  exact alt_yields (fun s hs => absurd hs List.not_mem_nil) hit

theorem name_kind (h : Derives (.name n) w) :
    ∃ tok : Token, w = [tok] ∧ tok.kind ∈ [Token.Kind.ident, .placeholder, .lParen, .rParen] := by
  cases h with
  | ident h => exact ⟨_, rfl, by rw [h]; decide⟩
  | placeholder h => exact ⟨_, rfl, by rw [h]; decide⟩

theorem path_parsed {second : NameForm} {others : List NameForm} (hd : Derives (.name n) u) (hn : Parsed (.name n) u)
    (hds : Derives (.segments (second :: others)) v) (hs : Parsed (.segments (second :: others)) v) :
    Parsed (.expr .primary (.path (n :: second :: others))) (u ++ v) := by
  intro depth m rest _ _ hrest
  obtain ⟨tok, rfl, hk⟩ := name_kind hd
  have hbrace : HeadNotIn [.lBrace] (v ++ rest) := by
    cases hds with
    | segment hdot => exact headNotIn_cons (by rw [hdot]; decide)
  have hit : path.Yields (tok :: (v ++ rest)) (fun e => e.form = .path (n :: second :: others)) rest := by
    refine ((hn (v ++ rest)).pair ((hs rest hrest).pair_of_many0 (by simp))).map ?_
    rintro ⟨a, b, bs⟩ ⟨ha, hbs⟩
    show ExprForm.path (a.form :: (b :: bs).map Name.form) = _
    rw [ha, hbs]
  exact alt_yields (guards_miss hk fun _ => hbrace) hit

theorem path_misses (hn : Parsed (.name n) u) (hrest : Stops .primary rest) : path.Misses (u ++ rest) := by
  have hdot : HeadNotIn [.dot] rest := hrest.headNotIn (by decide)
  exact Misses.map ((hn rest).pair_misses ((((tag_misses hdot).pair name).map _).pair _)) _

theorem plainName_parsed (hd : Derives (.name n) w) (hn : Parsed (.name n) w) :
    Parsed (.expr .primary (.name n)) w := by
  intro depth m rest _ _ hrest
  have hpath := path_misses hn hrest
  obtain ⟨tok, rfl, hk⟩ := name_kind hd
  have hbefore : ∀ r ∈ guards ++ [path], r.Misses (tok :: rest) := by
    intro r hr
    rcases List.mem_append.1 hr with hr | hr
    · exact guards_miss hk (fun _ => hrest.headNotIn (by decide)) r hr
    · cases List.mem_singleton.1 hr
      exact hpath
  have hit : (map name Expr.name).Yields (tok :: rest) (fun e => e.form = .name n) rest :=
    (hn rest).map fun a ha => congrArg ExprForm.name ha
  exact alt_yields hbefore hit

/-! ## Parentheses -/

theorem exprWithin_misses (h : tok.kind = .rParen) (depth : Nat) (ts : List Token) :
    (exprWithin depth).Misses (tok :: ts) := by
  have other {kinds : List Token.Kind} (hk : Token.Kind.rParen ∉ kinds) :
      HeadNotIn kinds (tok :: ts) := headNotIn_cons (by rw [h]; exact hk)
  have name_misses : name.Misses (tok :: ts) := name_misses (by rw [h]; decide)
  have primary_misses (inner : Rule Expr) : (primary inner).Misses (tok :: ts) := by
    have all : ∀ r ∈ guards ++ [path, map name Expr.name, tuple inner], r.Misses (tok :: ts) := by
      intro r hr
      rcases List.mem_append.1 hr with hr | hr
      · exact guards_miss (by rw [h]; decide) (by rw [h]; nofun) r hr
      · simp only [List.mem_cons, List.not_mem_nil, or_false] at hr
        rcases hr with rfl | rfl | rfl
        · exact (name_misses.pair _).map _
        · exact name_misses.map _
        · exact ((tag_misses (other (by decide))).pair _).map _
    exact alt_misses all
  have unary_misses (inner : Rule Expr) (n : Nat) : (unary inner n).Misses (tok :: ts) := by
    cases n with
    | zero => exact primary_misses inner
    | succ n =>
      refine alt_misses fun r hr => ?_
      simp only [List.mem_cons, List.not_mem_nil, or_false] at hr
      rcases hr with rfl | rfl
      · exact ((oneOf_misses (other (by decide))).pair _).map _
      · exact primary_misses inner
  -- every level starts with an operand of the next one
  have operand_misses {r : Rule Expr} (hr : r.Misses (tok :: ts)) (kinds : List Token.Kind) :
      (leftAssoc kinds r).Misses (tok :: ts) := (hr.pair _).map _
  cases depth with
  | zero => exact (alt_misses fun r hr => absurd hr List.not_mem_nil).label "expression" _
  | succ depth =>
    have sum := operand_misses (operand_misses (unary_misses (exprWithin depth) (depth + 1))
      Level.product.kinds) Level.sum.kinds
    have range : (rangeOf _).Misses (tok :: ts) := (sum.pair _).map _
    exact (operand_misses (operand_misses (operand_misses range Level.comparison.kinds)
      Level.and.kinds) Level.or.kinds).label "expression" _

theorem exprWithin_yields (hd : Derives (.expr .or t) w) (h : Parsed (.expr .or t) w) {depth : Nat}
    (hdepth : w.length ≤ depth) (hrest : Stops .or rest) :
    (exprWithin depth).Yields (w ++ rest) (fun e => e.form = t) rest := by
  obtain ⟨tok, ts, rfl, _⟩ := hd.startsWith
  cases depth with
  | zero => exact absurd hdepth (Nat.not_succ_le_zero _)
  | succ depth =>
    rw [exprWithin_succ]
    exact (h depth (depth + 1) rest hdepth hdepth hrest).label _ _

/-- The end of a list of elements: a comma or none, and the closing parenthesis. -/
structure ElementsEnd (trailing : List Token) (closing : Token) : Prop where
  trailing_eq : trailing = [] ∨ ∃ comma : Token, comma.kind = .comma ∧ trailing = [comma]
  closing_kind : closing.kind = .rParen

theorem ElementsEnd.stops {trailing : List Token} (h : ElementsEnd trailing closing) (level : Level)
    (rest : List Token) : Stops level (trailing ++ closing :: rest) := by
  rcases h.trailing_eq with rfl | ⟨comma, hc, rfl⟩
  · exact stops_of_none (by rw [h.closing_kind]; rfl)
  · exact stops_of_none (by rw [hc]; rfl)

theorem ElementsEnd.misses {trailing : List Token} (h : ElementsEnd trailing closing) (depth : Nat)
    (rest : List Token) : (preceded (tag .comma) (exprWithin depth)).Misses (trailing ++ closing :: rest) := by
  rcases h.trailing_eq with rfl | ⟨comma, hc, rfl⟩
  · exact ((tag_misses (headNotIn_cons (by rw [h.closing_kind]; decide))).pair _).map _
  · exact ((tag_yields hc).pair_misses (exprWithin_misses h.closing_kind depth rest)).map _

theorem ElementsEnd.opt_comma {trailing : List Token} (h : ElementsEnd trailing closing) (rest : List Token) :
    (opt (tag .comma)).Yields (trailing ++ closing :: rest) (fun o => o = none ↔ trailing = [])
      (closing :: rest) := by
  rcases h.trailing_eq with rfl | ⟨comma, hc, rfl⟩
  · have miss : (tag .comma).Misses (closing :: rest) :=
      tag_misses (headNotIn_cons (by rw [h.closing_kind]; decide))
    exact miss.opt.mono fun o ho => ⟨fun _ => rfl, fun _ => ho⟩
  · refine (tag_yields hc).opt.mono ?_
    rintro _ ⟨tok, rfl, _⟩
    simp

/-- The form of one or more elements in parentheses. -/
def parenthesized (first : ExprForm) (others : List ExprForm) (trailing : List Token) : ExprForm :=
  if others = [] ∧ trailing = [] then first else .tuple (first :: others)

theorem tuple_yields {others : List ExprForm} {trailing : List Token} (ho : opening.kind = .lParen)
    (hd : Derives (.expr .or first) u) (hf : Parsed (.expr .or first) u) (hdo : Derives (.elements others) v)
    (hs : Parsed (.elements others) v) (hend : ElementsEnd trailing closing) {depth : Nat}
    (hdepth : u.length + v.length ≤ depth) :
    (tuple (exprWithin depth)).Yields (opening :: (u ++ (v ++ (trailing ++ closing :: rest))))
      (fun e => e.form = parenthesized first others trailing) rest := by
  have hstops : Stops .or (v ++ (trailing ++ closing :: rest)) := hdo.elements_stop (hend.stops .or rest)
  have head : (exprWithin depth).Yields _ _ _ := exprWithin_yields hd hf (by omega) hstops
  have tail := hs depth (trailing ++ closing :: rest) (by omega) (hend.stops .or rest)
    (hend.misses depth rest)
  have elements : (separated (tag .comma) (exprWithin depth)).Yields
      (u ++ (v ++ (trailing ++ closing :: rest)))
      (fun es => es.map Expr.form = first :: others) (trailing ++ closing :: rest) := by
    refine (head.pair tail).map ?_
    rintro ⟨e, es⟩ ⟨he, hes⟩
    rw [List.map_cons, he, hes]
  refine ((tag_yields ho).pair ((elements.pair (hend.opt_comma rest)).opt.pair
    (tag_yields hend.closing_kind))).map ?_
  rintro ⟨op, found, cl⟩ ⟨_, ⟨⟨es, comma⟩, rfl, hes, hcomma⟩, _⟩
  simp only at hes hcomma
  -- one element without a comma is the expression itself, and all else a tuple
  match es, comma, hes, hcomma with
  | [], _, hes, _ => cases hes
  | [e], none, hes, hcomma =>
    simp only [List.map_cons, List.map_nil, List.cons.injEq] at hes
    simp only [parenthesized, ← hes.2, hcomma.1 rfl, and_self, if_true]
    exact hes.1
  | [e], some c, hes, hcomma =>
    have hne : trailing ≠ [] := fun h => nomatch hcomma.2 h
    simp only [parenthesized, hne, and_false, if_false, Expr.form, Expr.forms_eq_map, hes]
  | e :: e' :: es, _, hes, _ =>
    have hne : others ≠ [] := by
      rintro rfl
      simp at hes
    simp only [parenthesized, hne, false_and, if_false, Expr.form, Expr.forms_eq_map, hes]

/-- Parentheses are tried after everything else that starts a primary expression. -/
theorem before_tuple_misses (ho : opening.kind = .lParen) (ts : List Token) :
    ∀ r ∈ guards ++ [path, map name Expr.name], r.Misses (opening :: ts) := by
  have name_misses : name.Misses (opening :: ts) := name_misses (by rw [ho]; decide)
  intro r hr
  rcases List.mem_append.1 hr with hr | hr
  · exact guards_miss (by rw [ho]; decide) (by rw [ho]; nofun) r hr
  · simp only [List.mem_cons, List.not_mem_nil, or_false] at hr
    rcases hr with rfl | rfl
    · exact (name_misses.pair _).map _
    · exact name_misses.map _

theorem primary_of_tuple {inner : Rule Expr} {P : Expr → Prop} (ho : opening.kind = .lParen)
    (h : (tuple inner).Yields (opening :: ts) P rest) : (primary inner).Yields (opening :: ts) P rest :=
  alt_yields (before_tuple_misses ho ts) h

theorem unit_yields (ho : opening.kind = .lParen) (hc : closing.kind = .rParen) (depth : Nat) (rest : List Token) :
    (tuple (exprWithin depth)).Yields (opening :: closing :: rest) (fun e => e.form = .tuple []) rest := by
  have none_inside := (((exprWithin_misses hc depth rest).pair
    (many0 (preceded (tag .comma) (exprWithin depth)))).map fun p => p.1 :: p.2).pair
      (opt (tag .comma))
  refine ((tag_yields ho).pair (none_inside.opt.pair (tag_yields hc))).map ?_
  rintro ⟨op, _, cl⟩ ⟨_, rfl, _⟩
  rfl

theorem unit_parsed (ho : opening.kind = .lParen) (hc : closing.kind = .rParen) :
    Parsed (.expr .primary (.tuple [])) [opening, closing] := by
  intro depth n rest _ _ _
  exact primary_of_tuple ho (unit_yields ho hc depth rest)

theorem parenthesized_parsed {others : List ExprForm} {trailing : List Token} (ho : opening.kind = .lParen)
    (hd : Derives (.expr .or first) u) (hf : Parsed (.expr .or first) u) (hdo : Derives (.elements others) v)
    (hs : Parsed (.elements others) v) (hend : ElementsEnd trailing closing) :
    Parsed (.expr .primary (parenthesized first others trailing))
      (opening :: (u ++ v ++ trailing ++ [closing])) := by
  intro depth n rest hdepth _ _
  simp only [List.length_cons, List.length_append, List.length_nil] at hdepth
  have hit : (tuple (exprWithin depth)).Yields _ _ rest := tuple_yields ho hd hf hdo hs hend (by omega)
  simp only [List.cons_append, List.append_assoc, List.nil_append]
  exact primary_of_tuple ho hit

theorem noElement_parsed : Parsed (.elements []) [] := by
  intro depth rest _ _ hmiss
  exact (many0_stops (.inr hmiss)).mono (by rintro _ rfl; rfl)

theorem element_parsed {comma : Token} {ts : List ExprForm} (hc : comma.kind = .comma) (hd : Derives (.expr .or t) u)
    (ht : Parsed (.expr .or t) u) (hds : Derives (.elements ts) v) (hts : Parsed (.elements ts) v) :
    Parsed (.elements (t :: ts)) (comma :: (u ++ v)) := by
  intro depth rest hdepth hrest hmiss
  simp only [List.length_cons, List.length_append] at hdepth
  have hstops : Stops .or (v ++ rest) := hds.elements_stop hrest
  have element : (preceded (tag .comma) (exprWithin depth)).Yields (comma :: (u ++ (v ++ rest)))
      (fun e => e.form = t) (v ++ rest) :=
    ((tag_yields hc).pair (exprWithin_yields hd ht (by omega) hstops)).map fun p hp => hp.2
  rw [List.cons_append, List.append_assoc]
  refine (many0_goes_on element ?_ (hts depth rest (by omega) hrest hmiss)).mono ?_
  · simp only [List.length_cons, List.length_append]
    omega
  · rintro _ ⟨b, bs, rfl, hb, hbs⟩
    rw [List.map_cons, hb, hbs]

/-! ## Prefix operators -/

theorem noPrefix_parsed (hd : Derives (.expr .primary t) w) (h : Parsed (.expr .primary t) w) :
    Parsed (.expr .prefixed t) w := by
  intro depth n rest hdepth hn hrest
  have hit : (primary (exprWithin depth)).Yields (w ++ rest) (fun e => e.form = t) rest :=
    h depth n rest hdepth hn hrest.tighter
  obtain ⟨tok, ts, rfl, hk⟩ := hd.startsWith
  cases n with
  | zero => exact absurd hn (Nat.not_succ_le_zero _)
  | succ n =>
    have hop : HeadNotIn [.minus, .bang] (tok :: ts ++ rest) := by
      refine headNotIn_cons fun hin => ?_
      have all : ∀ k ∈ Level.primary.starts, k ∉ [Token.Kind.minus, .bang] := by decide
      exact all _ hk hin
    have miss (f : Token × Expr → Expr) :
        ∀ r ∈ [map (pair (oneOf [.minus, .bang]) (unary (exprWithin depth) n)) f],
          r.Misses (tok :: ts ++ rest) := by
      intro r hr
      cases List.mem_singleton.1 hr
      exact ((oneOf_misses hop).pair _).map _
    exact alt_yields (miss _) hit

theorem prefixed_parsed (hop : (tok.kind, op) ∈ prefixOperators) (h : Parsed (.expr .prefixed t) w) :
    Parsed (.expr .prefixed (.unary op t)) (tok :: w) := by
  intro depth n rest hdepth hn hrest
  simp only [List.length_cons] at hdepth hn
  have hk : tok.kind ∈ prefixOperators.map Prod.fst := List.mem_map.2 ⟨_, hop, rfl⟩
  have operates : prefixOperator? tok.kind = some op := by
    have all : ∀ pair ∈ prefixOperators, prefixOperator? pair.1 = some pair.2 := by decide
    exact all _ hop
  cases n with
  | zero => exact absurd hn (Nat.not_succ_le_zero _)
  | succ n =>
    have hit : (map (pair (oneOf [.minus, .bang]) (unary (exprWithin depth) n))
        fun p => Expr.unary ((prefixOperator? p.1.kind).getD .neg) p.2
          (p.1.span.join p.2.span)).Yields (tok :: (w ++ rest))
        (fun e => e.form = .unary op t) rest := by
      refine ((oneOf_yields hk).pair (h depth n rest (by omega) (by omega) hrest)).map ?_
      rintro ⟨tok', e⟩ ⟨rfl, he⟩
      simp only [operates, Option.getD_some, Expr.form]
      rw [← he]
    exact alt_yields (fun s hs => absurd hs List.not_mem_nil) hit

/-! ## Statements and modules -/

theorem expr_yields (h : Parsed (.expr .or t) w) (hrest : Stops .or rest) :
    expr.Yields (w ++ rest) (fun e => e.form = t) rest := by
  intro i hi
  have hleft : w.length ≤ i.left := by rw [i.left_eq_length, hi, List.length_append]; omega
  have hit := (h i.left (i.left + 1) rest (by omega) (by omega) hrest).label "expression"
    .expectedExpression
  exact hit i hi

theorem node_of_statement {P : Statement → Prop} (hk : tok.kind ≠ .hash)
    (h : (alt [letStatement, exprStatement]).Yields (tok :: ts) P rest) : node.Yields (tok :: ts) P rest := by
  have miss : ∀ r ∈ [(unimplemented (tag .hash) "directive" : Rule Statement)],
      r.Misses (tok :: ts) := by
    intro r hr
    cases List.mem_singleton.1 hr
    exact (tag_misses (headNotIn_cons (by simpa using hk))).unimplemented _
  exact alt_yields miss h

theorem exprStatement_parsed {semicolon : Token} (hd : Derives (.expr .or t) w) (h : Parsed (.expr .or t) w)
    (hs : semicolon.kind = .semicolon) : Parsed (.statement (.expr t)) (w ++ [semicolon]) := by
  intro rest
  have hit : exprStatement.Yields (w ++ semicolon :: rest) (fun s => s.form = .expr t) rest := by
    refine ((expr_yields h (stops_of_none (by rw [hs]; rfl))).pair (tag_yields hs)).map ?_
    rintro ⟨e, tok⟩ ⟨he, _⟩
    exact congrArg StatementForm.expr he
  obtain ⟨tok, ts, rfl, hk⟩ := hd.startsWith
  have hne : ∀ k ∈ Level.or.starts, k ≠ .kwLet ∧ k ≠ .hash := by decide
  have miss : ∀ r ∈ [letStatement], r.Misses (tok :: (ts ++ semicolon :: rest)) := by
    intro r hr
    cases List.mem_singleton.1 hr
    have hlet : HeadNotIn [.kwLet] (tok :: (ts ++ semicolon :: rest)) :=
      headNotIn_cons (by simpa using (hne _ hk).1)
    exact (((tag_misses hlet).pair _).pair _).map _
  rw [List.append_assoc]
  exact node_of_statement (hne _ hk).2 (alt_yields miss hit)

theorem letStatement_parsed {start assign semicolon : Token} (hstart : start.kind = .kwLet) (hn : Parsed (.name n) u)
    (ha : assign.kind = .assign) (ht : Parsed (.expr .or t) v) (hs : semicolon.kind = .semicolon) :
    Parsed (.statement (.letIn n t)) (start :: (u ++ assign :: (v ++ [semicolon]))) := by
  intro rest
  have bound : (terminated name (tag .assign)).Yields (u ++ assign :: (v ++ semicolon :: rest))
      (fun a => a.form = n) (v ++ semicolon :: rest) :=
    ((hn _).pair (tag_yields ha)).map fun p hp => hp.1
  have value := (expr_yields ht (stops_of_none (by rw [hs]; rfl))).pair
    (tag_yields hs : (tag .semicolon).Yields (semicolon :: rest) _ _)
  have hit : letStatement.Yields (start :: (u ++ assign :: (v ++ semicolon :: rest)))
      (fun s => s.form = .letIn n t) rest := by
    refine (((tag_yields hstart).pair bound).pair value).map ?_
    rintro ⟨⟨tok, a⟩, e, tok'⟩ ⟨⟨_, ha⟩, he, _⟩
    show StatementForm.letIn a.form e.form = _
    rw [ha, he]
  simp only [List.cons_append, List.append_assoc, List.nil_append]
  exact node_of_statement (by rw [hstart]; decide)
    (alt_yields (fun s hs => absurd hs List.not_mem_nil) hit)

theorem statements_parsed {s : StatementForm} {ss : List StatementForm} (hd : Derives (.statement s) u)
    (hs : Parsed (.statement s) u) (hss : Parsed (.module ss) v) : Parsed (.module (s :: ss)) (u ++ v) := by
  refine (many0_goes_on (hs v) ?_ hss).mono ?_
  · have hpos : 0 < u.length := by
      cases hd with
      | exprStatement => simp
      | letStatement => simp
    rw [List.length_append]
    omega
  · rintro _ ⟨b, bs, rfl, hb, hbs⟩
    rw [List.map_cons, hb, hbs]

/-- Every phrase is read by its rule, whatever stands behind it and ends it. -/
theorem parse_of_derives {p : Phrase} (h : Derives p w) : Parsed p w := by
  induction h with
  | ident hk => exact ident_yields hk
  | placeholder hk => exact placeholder_yields hk
  | noSegment =>
    intro rest hrest
    have miss := (tag_misses (hrest.headNotIn (by decide) : HeadNotIn [.dot] rest)).pair name
    exact (many0_stops (.inr (miss.map _))).mono (by rintro _ rfl; rfl)
  | segment hdot _ _ ihn ihs => exact segment_parsed hdot ihn ihs
  | noStep => exact noStep_parsed _
  | step hop _ hs iht ihs => exact step_parsed hop iht hs ihs
  | chain hne _ hs ihf ihs => exact chain_parsed hne ihf hs ihs
  | noRange _ ih => exact noRange_parsed ih
  | range hop _ _ ihl ihr => exact range_parsed hop ihl ihr
  | noPrefix hd ih => exact noPrefix_parsed hd ih
  | prefixed hop _ ih => exact prefixed_parsed hop ih
  | literal hk => exact literal_parsed hk
  | plainName hd ih => exact plainName_parsed hd ih
  | path hd hs ihn ihs => exact path_parsed hd ihn hs ihs
  | noElement => exact noElement_parsed
  | element hc hd hds iht ihs => exact element_parsed hc hd iht hds ihs
  | unit ho hc => exact unit_parsed ho hc
  | group ho hd hc ih =>
    simpa [parenthesized] using
      parenthesized_parsed ho hd ih .noElement noElement_parsed ⟨.inl rfl, hc⟩
  | single ho hd hcomma hc ih =>
    simpa [parenthesized] using
      parenthesized_parsed ho hd ih .noElement noElement_parsed ⟨.inr ⟨_, hcomma, rfl⟩, hc⟩
  | several ho hd hds htrailing hc ihf ihs =>
    simpa [parenthesized] using parenthesized_parsed ho hd ihf hds ihs ⟨htrailing, hc⟩
  | exprStatement hd hs ih => exact exprStatement_parsed hd ih hs
  | letStatement hstart _ ha _ hs ihn ihe => exact letStatement_parsed hstart ihn ha ihe hs
  | noStatement => exact (many0_stops (.inl rfl)).mono (by rintro _ rfl; rfl)
  | statements hd _ ihs ihss => exact statements_parsed hd ihs ihss

theorem parseModule_complete {toks : List Token} {forms : List StatementForm}
    (h : Derives (.module forms) toks) :
    ∃ statements, parseModule toks = .ok statements ∧ statements.map Statement.form = forms := by
  obtain ⟨ss, j, hm, hj, hf⟩ := parse_of_derives h { tokens := toks.toArray } (unread_start toks)
  exact ⟨ss, parseModule_eq_ok.2 ⟨j, hm, hj⟩, hf⟩

end LetStack.Grammar
