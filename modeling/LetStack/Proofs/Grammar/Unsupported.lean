import LetStack.Proofs.Grammar.Awaiting
import LetStack.Proofs.Grammar.CutLaws
import LetStack.Proofs.Grammar.Stopping

/-!
A form without grammar is reported where an operand or a statement is due and the next tokens start the form, and
nowhere else (`unsupported_reported`).
-/

namespace LetStack.Grammar
open Ast Rule

/-! ## Forms without grammar -/

/-- The first tokens of the forms that are known and have no grammar. -/
def unsupportedStarts : List Token.Kind := [.kwMatch, .kwIf, .pipe, .orOr, .kwFn, .lBracket]

/-- The tokens start a form that has no grammar: with its first token, or with a name and a brace. -/
def StartsUnsupported (ts : List Token) : Prop :=
  ∃ first rest, ts = first :: rest ∧ (first.kind ∈ unsupportedStarts ∨
    first.kind = .ident ∧ ∃ brace ∈ rest.head?, brace.kind = .lBrace)

theorem StartsUnsupported.ne_nil {ts : List Token} (h : StartsUnsupported ts) : ts ≠ [] := by
  obtain ⟨first, rest, rfl, _⟩ := h
  exact List.cons_ne_nil _ _

theorem StartsUnsupported.headNotIn {ts : List Token} (h : StartsUnsupported ts) {kinds : List Token.Kind}
    (other : ∀ k ∈ .ident :: unsupportedStarts, k ∉ kinds) : HeadNotIn kinds ts := by
  obtain ⟨first, rest, rfl, hk | ⟨hk, _⟩⟩ := h
  · exact headNotIn_cons (other _ (.tail _ hk))
  · exact headNotIn_cons (other _ (by rw [hk]; exact .head _))

variable {rest w toks : List Token} {inner : Rule Expr} {depth : Nat}

theorem primary_cuts (h : StartsUnsupported rest) (inner : Rule Expr) : (primary inner).Cuts [] rest := by
  have literal_misses : literal.Misses rest := (oneOf_misses (h.headNotIn (by decide))).map _
  obtain ⟨first, rest, rfl, starts⟩ := h
  have tagged (kind : Token.Kind) (feature : Bytes) :
      (unimplemented (tag kind) feature : Rule Expr).Misses (first :: rest) ∨
        (unimplemented (tag kind) feature : Rule Expr).Cuts [] (first :: rest) := by
    by_cases hk : first.kind = kind
    · exact .inr (unimplemented_cuts (tag_yields hk) feature)
    · exact .inl ((tag_misses (headNotIn_cons (by simpa using hk))).unimplemented feature)
  have init (hk : first.kind = .ident) (hb : ∃ brace ∈ rest.head?, brace.kind = .lBrace) :
      (unimplemented (terminated (tag .ident) (tag .lBrace)) "struct/union init" : Rule Expr).Cuts []
        (first :: rest) := by
    obtain ⟨brace, hhead, hb⟩ := hb
    obtain ⟨rest, rfl⟩ := List.head?_eq_some_iff.1 hhead
    have yields : (pair (tag .ident) (tag .lBrace)).Yields (first :: brace :: rest) _ rest :=
      (tag_yields hk).pair (tag_yields hb)
    exact unimplemented_cuts (yields.map (Q := fun _ => True) fun _ _ => trivial) _
  have each : ∀ r ∈ guards, r.Misses (first :: rest) ∨ r.Cuts [] (first :: rest) := by
    intro r hr
    simp only [guards, List.mem_cons, List.not_mem_nil, or_false] at hr
    rcases hr with rfl | rfl | rfl | rfl | rfl | rfl
    · exact .inl literal_misses
    · exact tagged _ _
    · exact tagged _ _
    · by_cases hk : first.kind ∈ [Token.Kind.pipe, .orOr, .kwFn]
      · exact .inr (unimplemented_cuts (oneOf_yields hk) _)
      · exact .inl ((oneOf_misses (headNotIn_cons hk)).unimplemented _)
    · exact tagged _ _
    · by_cases both : first.kind = .ident ∧ ∃ brace ∈ rest.head?, brace.kind = .lBrace
      · exact .inr (init both.1 both.2)
      · refine .inl (Misses.unimplemented (Misses.map ?_ _) _)
        by_cases hk : first.kind = .ident
        · exact (tag_yields hk).pair_misses
            (tag_misses fun brace hb hin => both ⟨hk, brace, hb, List.mem_singleton.1 hin⟩)
        · exact (tag_misses (headNotIn_cons (by simpa using hk))).pair _
  have one : ∃ r ∈ guards, r.Cuts [] (first :: rest) := by
    have closure (hk : first.kind ∈ [Token.Kind.pipe, .orOr, .kwFn]) : ∃ r ∈ guards, r.Cuts [] (first :: rest) :=
      ⟨_, by simp [guards], unimplemented_cuts (oneOf_yields hk) "closure"⟩
    rcases starts with hk | ⟨hk, hb⟩
    · simp only [unsupportedStarts, List.mem_cons, List.not_mem_nil, or_false] at hk
      rcases hk with hk | hk | hk | hk | hk | hk
      · exact ⟨_, by simp [guards], unimplemented_cuts (tag_yields hk) "match"⟩
      · exact ⟨_, by simp [guards], unimplemented_cuts (tag_yields hk) "if"⟩
      · exact closure (by rw [hk]; decide)
      · exact closure (by rw [hk]; decide)
      · exact closure (by rw [hk]; decide)
      · exact ⟨_, by simp [guards], unimplemented_cuts (tag_yields hk) "array"⟩
    · exact ⟨_, by simp [guards], init hk hb⟩
  exact alt_cuts_of_mem each one

/-! ## Expressions that break off -/

theorem Awaits.head {level : Level} (h : Awaits level w) (hrest : StartsUnsupported rest) :
    ∃ tok ts, w ++ rest = tok :: ts ∧ tok.kind ∈ level.starts ++ unsupportedStarts := by
  have starts {level : Level} {t : ExprForm} {u : List Token} (hu : Derives (.expr level.tighter t) u) (more : List Token) :
      ∃ tok ts, u ++ more = tok :: ts ∧ tok.kind ∈ level.starts ++ unsupportedStarts := by
    obtain ⟨tok, ts, rfl, hk⟩ := hu.startsWith
    exact ⟨tok, ts ++ more, rfl, List.mem_append_left _ (Level.starts_tighter hk)⟩
  induction h with
  | operand =>
    obtain ⟨first, rest, rfl, hk | ⟨hk, _⟩⟩ := hrest
    · exact ⟨first, rest, rfl, List.mem_append_right _ hk⟩
    · exact ⟨first, rest, rfl, by rw [hk]; decide⟩
  | first _ _ ih =>
    obtain ⟨tok, ts, split, hk⟩ := ih
    refine ⟨tok, ts, split, ?_⟩
    rcases List.mem_append.1 hk with hk | hk
    · exact List.mem_append_left _ (Level.starts_tighter hk)
    · exact List.mem_append_right _ hk
  | later hu =>
    rw [List.append_assoc]
    exact starts hu _
  | bound hu =>
    rw [List.append_assoc]
    exact @starts .range _ _ hu _
  | prefixed hop =>
    have all : ∀ pair ∈ prefixOperators, pair.1 ∈ Level.prefixed.starts ++ unsupportedStarts := by decide
    exact ⟨_, _, rfl, all _ hop⟩
  | inside ho => exact ⟨_, _, rfl, by rw [ho]; decide⟩
  | element ho => exact ⟨_, _, rfl, by rw [ho]; decide⟩

theorem Awaits.headNotIn {level : Level} (h : Awaits level w) (hrest : StartsUnsupported rest)
    {kinds : List Token.Kind} (other : ∀ k ∈ level.starts ++ unsupportedStarts, k ∉ kinds) :
    HeadNotIn kinds (w ++ rest) := by
  obtain ⟨tok, ts, split, hk⟩ := h.head hrest
  rw [split]
  exact headNotIn_cons (other _ hk)

theorem ruleAt_built (h : Built inner) (n : Nat) (level : Level) : Built (ruleAt inner n level) := by
  have prefixed : Built (ruleAt inner n .prefixed) := unary_built h n
  have sum : Built (ruleAt inner n .sum) := leftAssoc_built (leftAssoc_built prefixed)
  have comparison : Built (ruleAt inner n .comparison) := leftAssoc_built (rangeOf_built sum)
  cases level with
  | or => exact leftAssoc_built (leftAssoc_built comparison)
  | and => exact leftAssoc_built comparison
  | comparison => exact comparison
  | range => exact rangeOf_built sum
  | sum => exact sum
  | product => exact leftAssoc_built prefixed
  | prefixed => exact prefixed
  | primary => exact primary_built h

theorem steps_cut {level : Level} {steps : List (Operator × ExprForm)} {v : List Token} {n : Nat}
    (hv : Derives (.steps level steps) v) {tok : Token} {op : Operator} (hop : (tok.kind, op) ∈ level.operators)
    (hdepth : v.length ≤ depth + 1) (hn : v.length ≤ n) (hne : rest ≠ [])
    (operand : (ruleAt (exprWithin depth) n level.tighter).Cuts w rest) :
    (many0 (pair (oneOf level.kinds) (ruleAt (exprWithin depth) n level.tighter))).Cuts (v ++ tok :: w) rest := by
  have known {t : Token} {o : Operator} (h : (t.kind, o) ∈ level.operators) : t.kind ∈ level.kinds :=
    List.mem_map.2 ⟨_, h, rfl⟩
  generalize hp : Phrase.steps level steps = p at hv
  induction hv generalizing steps with
  | noStep =>
    have operator : (oneOf level.kinds).Yields ([tok] ++ (w ++ rest)) _ (w ++ rest) := oneOf_yields (known hop)
    exact (operator.pair_cuts (.oneOf _) operand).many0 hne
  | @step _ t o _ _ u v hop' hu hv _ ih =>
    cases hp
    simp only [List.length_cons, List.length_append] at hdepth hn
    have stops : Stops level.tighter (v ++ tok :: w ++ rest) := by
      rw [List.append_assoc]
      exact hv.steps_stop (stops_of_operator hop)
    have step := (oneOf_yields (known hop')).pair
      (parse_of_derives hu depth n (v ++ tok :: w ++ rest) (by omega) (by omega) stops)
    have built := (Built.oneOf level.kinds).pair (ruleAt_built (exprWithin_built depth) n level.tighter)
    rw [show t :: (u ++ v) ++ tok :: w = t :: u ++ (v ++ tok :: w) by simp]
    exact many0_goes_on_cuts built (List.cons_ne_nil _ _) step (ih (by omega) (by omega) rfl)
  | _ => cases hp

theorem exprWithin_cuts
    (h : ∀ depth n, w.length ≤ depth → w.length ≤ n → (ruleAt (exprWithin depth) n .or).Cuts w rest)
    (hdepth : w.length < depth) : (exprWithin depth).Cuts w rest := by
  cases depth with
  | zero => cases hdepth
  | succ depth =>
    have hdepth := Nat.le_of_lt_succ hdepth
    exact (h depth (depth + 1) hdepth (Nat.le_succ_of_le hdepth)).label _ _

theorem elements_cut {others : List ExprForm} {v : List Token} (hv : Derives (.elements others) v) {comma : Token}
    (hc : comma.kind = .comma) (hdepth : v.length ≤ depth) (hne : rest ≠ [])
    (operand : (exprWithin depth).Cuts w rest) :
    (many0 (preceded (tag .comma) (exprWithin depth))).Cuts (v ++ comma :: w) rest := by
  generalize hp : Phrase.elements others = p at hv
  induction hv generalizing others with
  | noElement =>
    have separator : (tag .comma).Yields ([comma] ++ (w ++ rest)) _ (w ++ rest) := tag_yields hc
    exact ((separator.pair_cuts (.tag _) operand).map _).many0 hne
  | @element comma' _ _ u v hc' hu hv _ ih =>
    cases hp
    simp only [List.length_cons, List.length_append] at hdepth
    have stops : Stops .or (v ++ comma :: w ++ rest) := by
      rw [List.append_assoc]
      exact hv.elements_stop (stops_of_none (by rw [hc]; rfl))
    have element : (exprWithin depth).Yields (u ++ (v ++ comma :: w ++ rest)) _ _ :=
      exprWithin_yields hu (parse_of_derives hu) (by omega) stops
    have separated : (preceded (tag .comma) (exprWithin depth)).Yields (comma' :: u ++ (v ++ comma :: w ++ rest))
        (fun _ => True) (v ++ comma :: w ++ rest) := ((tag_yields hc').pair element).map fun _ _ => trivial
    have built := (Built.tag .comma).preceded (exprWithin_built depth)
    rw [show comma' :: (u ++ v) ++ comma :: w = comma' :: u ++ (v ++ comma :: w) by simp]
    exact many0_goes_on_cuts built (List.cons_ne_nil _ _) separated (ih (by omega) rfl)
  | _ => cases hp

theorem tuple_cuts {opening : Token} (ho : opening.kind = .lParen)
    (elements : (separated (tag .comma) inner).Cuts w rest) : (primary inner).Cuts (opening :: w) rest := by
  have opened : (tag .lParen).Yields ([opening] ++ (w ++ rest)) _ (w ++ rest) := tag_yields ho
  have inside := (elements.pair (opt (tag .comma))).opt.pair (tag .rParen)
  exact alt_cuts (before_tuple_misses ho _) ((opened.pair_cuts (.tag _) inside).map _)

theorem unary_cuts (operand : (primary inner).Cuts w rest) (head : HeadNotIn [.minus, .bang] (w ++ rest)) (n : Nat) :
    (unary inner n).Cuts w rest := by
  cases n with
  | zero => exact operand
  | succ n =>
    have misses (f : Token × Expr → Expr) :
        ∀ r ∈ [map (pair (oneOf [.minus, .bang]) (unary inner n)) f], r.Misses (w ++ rest) := by
      intro r hr
      cases List.mem_singleton.1 hr
      exact ((oneOf_misses head).pair _).map _
    exact alt_cuts (misses _) operand

/-- Each rule ends where its expression breaks off, if a form without grammar stands there. -/
theorem Awaits.cuts {level : Level} (h : Awaits level w) (hrest : StartsUnsupported rest) {n : Nat}
    (hdepth : w.length ≤ depth) (hn : w.length ≤ n) : (ruleAt (exprWithin depth) n level).Cuts w rest := by
  induction h generalizing depth n with
  | operand => exact primary_cuts hrest _
  | @first level w hne awaits ih =>
    have operand := @ih depth n hdepth hn
    cases level with
    | primary => exact absurd rfl hne
    | prefixed => exact unary_cuts operand (awaits.headNotIn hrest (by decide)) n
    | _ => exact (operand.pair _).map _
  | @later level _ _ tok _ u v w hu hv hop _ ih =>
    simp only [List.length_append, List.length_cons] at hdepth hn
    have stops : Stops level.tighter (v ++ tok :: w ++ rest) := by
      rw [List.append_assoc]
      exact hv.steps_stop (stops_of_operator hop)
    have first := parse_of_derives hu depth n (v ++ tok :: w ++ rest) (by omega) (by omega) stops
    have steps := steps_cut hv hop (by omega) (by omega) hrest.ne_nil (@ih depth n (by omega) (by omega))
    rw [ruleAt_chain (List.ne_nil_of_mem hop)]
    exact (first.pair_cuts (ruleAt_built (exprWithin_built depth) n _) steps).map _
  | @bound _ tok _ u w hu hop _ ih =>
    simp only [List.length_append, List.length_cons] at hdepth hn
    have stops : Stops .sum (tok :: w ++ rest) := stops_of_range hop
    have first := parse_of_derives hu depth n (tok :: w ++ rest) (by omega) (by omega) stops
    have known : tok.kind ∈ rangeOperators.map Prod.fst := List.mem_map.2 ⟨_, hop, rfl⟩
    have operator : (oneOf (rangeOperators.map Prod.fst)).Yields ([tok] ++ (w ++ rest)) _ (w ++ rest) :=
      oneOf_yields known
    have second := (operator.pair_cuts (.oneOf _) (@ih depth n (by omega) (by omega))).opt
    exact (first.pair_cuts (ruleAt_built (exprWithin_built depth) n _) second).map _
  | @prefixed tok _ w hop _ ih =>
    simp only [List.length_cons] at hdepth hn
    have known : tok.kind ∈ prefixOperators.map Prod.fst := List.mem_map.2 ⟨_, hop, rfl⟩
    have operator : (oneOf (prefixOperators.map Prod.fst)).Yields ([tok] ++ (w ++ rest)) _ (w ++ rest) :=
      oneOf_yields known
    cases n with
    | zero => cases hn
    | succ n =>
      have operand := @ih depth n (Nat.le_of_succ_le hdepth) (Nat.le_of_succ_le_succ hn)
      exact alt_cuts (fun s hs => absurd hs List.not_mem_nil) ((operator.pair_cuts (.oneOf _) operand).map _)
  | inside ho _ ih =>
    have inner := exprWithin_cuts (fun _ _ => ih) hdepth
    exact tuple_cuts ho ((inner.pair _).map _)
  | @element _ comma _ _ u v w ho hu hv hc _ ih =>
    simp only [List.length_cons, List.length_append] at hdepth
    have stops : Stops .or (v ++ comma :: w ++ rest) := by
      rw [List.append_assoc]
      exact hv.elements_stop (stops_of_none (by rw [hc]; rfl))
    have first : (exprWithin depth).Yields (u ++ (v ++ comma :: w ++ rest)) _ _ :=
      exprWithin_yields hu (parse_of_derives hu) (by omega) stops
    have inner : (exprWithin depth).Cuts w rest := exprWithin_cuts (fun _ _ => ih) (by omega)
    have others := elements_cut hv hc (by omega) hrest.ne_nil inner
    exact tuple_cuts ho ((first.pair_cuts (exprWithin_built depth) others).map _)

theorem expr_cuts (h : Awaits .or w) (hrest : StartsUnsupported rest) : expr.Cuts w rest := by
  intro i inside hi
  have room : w.length < i.left + 1 := by
    rw [i.left_eq_length, hi, List.length_append]
    exact Nat.lt_succ_of_le (Nat.le_add_right _ _)
  exact exprWithin_cuts (fun _ _ => h.cuts hrest) room i inside hi

/-! ## Statements and modules that break off -/

theorem StatementAwaits.cuts {w rest : List Token} (h : StatementAwaits w) (hrest : StartsUnsupported rest) :
    node.Cuts w rest := by
  have statement (hash : HeadNotIn [.hash] (w ++ rest)) (cuts : (alt [letStatement, exprStatement]).Cuts w rest) :
      node.Cuts w rest := by
    have misses : ∀ r ∈ [(unimplemented (tag .hash) "directive" : Rule Statement)], r.Misses (w ++ rest) := by
      intro r hr
      cases List.mem_singleton.1 hr
      exact (tag_misses hash).unimplemented _
    exact alt_cuts misses cuts
  cases h with
  | value awaits =>
    have misses : ∀ r ∈ [letStatement], r.Misses (w ++ rest) := by
      intro r hr
      cases List.mem_singleton.1 hr
      have start := tag_misses (awaits.headNotIn hrest (by decide) : HeadNotIn [.kwLet] (w ++ rest))
      exact ((start.pair _).pair _).map _
    refine statement (awaits.headNotIn hrest (by decide)) (alt_cuts misses ?_)
    exact ((expr_cuts awaits hrest).pair _).map _
  | @bound start assign n u w hstart hn ha awaits =>
    have bound : (terminated name (tag .assign)).Yields (u ++ assign :: (w ++ rest)) (fun a => a.form = n) (w ++ rest) :=
      ((parse_of_derives hn _).pair (tag_yields ha)).map fun p hp => hp.1
    have head := (tag_yields hstart).pair bound
    rw [show start :: (u ++ assign :: (w ++ rest)) = start :: (u ++ [assign]) ++ (w ++ rest) by simp] at head
    have built := (Built.tag .kwLet).pair (name_built.terminated (.tag .assign))
    have cuts := head.pair_cuts built ((expr_cuts awaits hrest).pair (tag .semicolon))
    rw [show start :: (u ++ [assign]) ++ w = start :: (u ++ assign :: w) by simp] at cuts
    refine statement (headNotIn_cons (by rw [hstart]; decide)) ?_
    exact alt_cuts (fun s hs => absurd hs List.not_mem_nil) (cuts.map _)

theorem directive_cuts {tok : Token} (hk : tok.kind = .hash) (rest : List Token) : node.Cuts [] (tok :: rest) := by
  have cuts : (unimplemented (tag .hash) "directive" : Rule Statement).Cuts [] (tok :: rest) :=
    unimplemented_cuts (tag_yields hk) _
  exact alt_cuts (fun s hs => absurd hs List.not_mem_nil) cuts

theorem statements_cut {forms : List StatementForm} {u : List Token} (hu : Derives (.module forms) u)
    (hne : rest ≠ []) (cuts : node.Cuts w rest) : (many0 node).Cuts (u ++ w) rest := by
  generalize hp : Phrase.module forms = p at hu
  induction hu generalizing forms with
  | noStatement => exact cuts.many0 hne
  | @statements _ _ u v hs _ _ ih =>
    cases hp
    have read := parse_of_derives hs (v ++ w ++ rest)
    rw [List.append_assoc]
    exact many0_goes_on_cuts node_built hs.statement_ne_nil read (ih rfl)
  | _ => cases hp

/-! ## What was read before -/

/-- An expression of the level breaks off before a form without grammar. -/
def BreaksOff (level : Level) (w rest : List Token) : Prop := Awaits level w ∧ StartsUnsupported rest

theorem BreaksOff.looser {level : Level} (hne : level ≠ .primary) {w rest : List Token}
    (h : BreaksOff level.tighter w rest) : BreaksOff level w rest := ⟨.first hne h.1, h.2⟩

theorem name_fatal {K : List Token → List Token → Prop} : Fatal name K := by
  refine alt_fatal ⟨?_, ?_⟩ <;> exact (tag_fatal _).map _

theorem path_fatal {K : List Token → List Token → Prop} : Fatal path K := by
  have segment : Fatal (preceded (tag .dot) name) fun _ _ => False :=
    ((tag_fatal _).pair_of_first name_fatal).map _
  have others : Fatal (many0 (preceded (tag .dot) name)) fun _ _ => False :=
    segment.many0 ((tag_sound .dot).preceded name_sound) fun _ _ _ _ _ h => h
  exact (name_fatal.pair_of_first (segment.pair_of_first others)).map _

theorem leftAssoc_fatal {level : Level} (hne : level.operators ≠ []) {operand : Rule Expr}
    (h : Fatal operand (BreaksOff level.tighter)) (sound : Sound operand (Reads level.tighter)) :
    Fatal (leftAssoc level.kinds operand) (BreaksOff level) := by
  have notPrimary : level ≠ .primary := by
    rintro rfl
    exact hne rfl
  have step : Fatal (pair (oneOf level.kinds) operand) fun w rest =>
      ∃ tok op w', w = tok :: w' ∧ (tok.kind, op) ∈ level.operators ∧ BreaksOff level.tighter w' rest := by
    refine (oneOf_fatal _).pair (oneOf_sound _) h ?_
    rintro _ v rest tok ⟨rfl, hk⟩ breaks
    obtain ⟨⟨_, op⟩, hop, rfl⟩ := List.mem_map.1 hk
    exact ⟨tok, op, v, rfl, hop, breaks⟩
  have stepSound : Sound (pair (oneOf level.kinds) operand) (StepRead level) := (oneOf_sound _).pair sound
  have steps : Fatal (many0 (pair (oneOf level.kinds) operand)) fun w rest => ∃ steps v tok op w',
      w = v ++ tok :: w' ∧ Derives (.steps level steps) v ∧ (tok.kind, op) ∈ level.operators ∧
        BreaksOff level.tighter w' rest := by
    refine step.many0 stepSound ?_
    rintro u read _ rest hread ⟨tok, op, w, rfl, hop, breaks⟩
    exact ⟨_, u, tok, op, w, rfl, (steps_derives hread).1, hop, breaks⟩
  have first := h.mono fun w rest => BreaksOff.looser notPrimary
  refine (first.pair sound steps ?_).map _
  rintro u _ rest e hread ⟨_, v, tok, op, w, rfl, hv, hop, awaits, starts⟩
  exact ⟨.later hread.derives hv hop awaits, starts⟩

theorem rangeOf_fatal {operand : Rule Expr} (h : Fatal operand (BreaksOff .sum)) (sound : Sound operand (Reads .sum)) :
    Fatal (rangeOf operand) (BreaksOff .range) := by
  have step : Fatal (pair (oneOf [.dotDot, .dotDotEq]) operand) fun w rest =>
      ∃ tok op w', w = tok :: w' ∧ (tok.kind, op) ∈ rangeOperators ∧ BreaksOff .sum w' rest := by
    refine (oneOf_fatal _).pair (oneOf_sound _) h ?_
    rintro _ v rest tok ⟨rfl, hk⟩ breaks
    obtain ⟨⟨_, op⟩, hop, rfl⟩ := List.mem_map.1 (show tok.kind ∈ rangeOperators.map Prod.fst from hk)
    exact ⟨tok, op, v, rfl, hop, breaks⟩
  have first := h.mono fun w rest => @BreaksOff.looser .range (by decide) w rest
  refine (first.pair sound step.opt ?_).map _
  rintro u _ rest e hread ⟨tok, op, w, rfl, hop, awaits, starts⟩
  exact ⟨.bound hread.derives hop awaits, starts⟩

theorem tuple_fatal (h : Fatal inner (BreaksOff .or)) (sound : Sound inner (Reads .or)) :
    Fatal (tuple inner) (BreaksOff .primary) := by
  have element : Fatal (preceded (tag .comma) inner) fun w rest =>
      ∃ comma w', w = comma :: w' ∧ comma.kind = .comma ∧ BreaksOff .or w' rest := by
    refine ((tag_fatal _).pair (tag_sound _) h ?_).map _
    rintro _ v rest comma ⟨rfl, hc⟩ breaks
    exact ⟨comma, v, rfl, hc, breaks⟩
  have elementSound : Sound (preceded (tag .comma) inner) ElementRead := (tag_sound _).preceded sound
  have others : Fatal (many0 (preceded (tag .comma) inner)) fun w rest => ∃ others v comma w',
      w = v ++ comma :: w' ∧ Derives (.elements others) v ∧ comma.kind = .comma ∧ BreaksOff .or w' rest := by
    refine element.many0 elementSound ?_
    rintro u read _ rest hread ⟨comma, w, rfl, hc, breaks⟩
    exact ⟨_, u, comma, w, rfl, (elements_derives hread).1, hc, breaks⟩
  -- what breaks off in parentheses is behind the one that opens them
  have elements : Fatal (separated (tag .comma) inner) fun w rest =>
      ∀ opening : Token, opening.kind = .lParen → BreaksOff .primary (opening :: w) rest := by
    have first := h.mono fun w rest breaks (opening : Token) (ho : opening.kind = .lParen) =>
      (⟨.inside ho breaks.1, breaks.2⟩ : BreaksOff .primary (opening :: w) rest)
    refine (first.pair sound others ?_).map _
    rintro u _ rest e hread ⟨_, v, comma, w, rfl, hv, hc, awaits, starts⟩ opening ho
    exact ⟨.element ho hread.derives hv hc awaits, starts⟩
  have inside := (elements.pair_of_first (tag_fatal .comma).opt).opt.pair_of_first (tag_fatal .rParen)
  refine ((tag_fatal _).pair (tag_sound _) inside ?_).map _
  rintro _ v rest opening ⟨rfl, ho⟩ breaks
  exact breaks opening ho

theorem primary_fatal (h : Fatal inner (BreaksOff .or)) (sound : Sound inner (Reads .or)) :
    Fatal (primary inner) (BreaksOff .primary) := by
  have tagged {kind : Token.Kind} (hk : kind ∈ unsupportedStarts) (feature : Bytes) :
      Fatal (unimplemented (tag kind) feature : Rule Expr) (BreaksOff .primary) := by
    refine unimplemented_fatal (tag_fatal _) (tag_sound _) feature ?_
    rintro _ rest tok ⟨rfl, rfl⟩
    exact ⟨.operand, tok, rest, rfl, .inl hk⟩
  refine alt_fatal ⟨?_, ?_, ?_, ?_, ?_, ?_, ?_, ?_, ?_⟩
  · exact (oneOf_fatal _).map _
  · exact tagged (by decide) _
  · exact tagged (by decide) _
  · refine unimplemented_fatal (oneOf_fatal _) (oneOf_sound _) _ ?_
    rintro _ rest tok ⟨rfl, hk⟩
    have all : ∀ k ∈ [Token.Kind.pipe, .orOr, .kwFn], k ∈ unsupportedStarts := by decide
    exact ⟨.operand, tok, rest, rfl, .inl (all _ hk)⟩
  · exact tagged (by decide) _
  · have trigger : Fatal (terminated (tag .ident) (tag .lBrace)) (BreaksOff .primary) :=
      ((tag_fatal _).pair_of_first (tag_fatal _)).map _
    refine unimplemented_fatal trigger ((tag_sound _).terminated (tag_sound _)) _ ?_
    rintro _ rest tok ⟨_, _, brace, rfl, ⟨rfl, hk⟩, rfl, hb⟩
    exact ⟨.operand, tok, brace :: rest, rfl, .inr ⟨hk, brace, rfl, hb⟩⟩
  · exact path_fatal
  · exact name_fatal.map _
  · exact tuple_fatal h sound

theorem unary_fatal (h : Fatal inner (BreaksOff .or)) (sound : Sound inner (Reads .or)) (depth : Nat) :
    Fatal (unary inner depth) (BreaksOff .prefixed) := by
  have bare : Fatal (primary inner) (BreaksOff .prefixed) :=
    (primary_fatal h sound).mono fun w rest => @BreaksOff.looser .prefixed (by decide) w rest
  induction depth with
  | zero => exact bare
  | succ depth ih =>
    refine alt_fatal ⟨?_, ?_⟩
    · refine ((oneOf_fatal _).pair (oneOf_sound _) ih ?_).map _
      rintro _ v rest tok ⟨rfl, hk⟩ ⟨awaits, starts⟩
      obtain ⟨⟨_, op⟩, hop, rfl⟩ := List.mem_map.1 (show tok.kind ∈ prefixOperators.map Prod.fst from hk)
      exact ⟨.prefixed hop awaits, starts⟩
    · exact bare

theorem binary_fatal {operand : Rule Expr} (h : Fatal operand (BreaksOff .prefixed))
    (sound : Sound operand (Reads .prefixed)) : Fatal (binary operand) (BreaksOff .or) := by
  have step {level : Level} (hne : level.operators ≠ []) {r : Rule Expr}
      (hr : Fatal r (BreaksOff level.tighter) ∧ Sound r (Reads level.tighter)) :
      Fatal (leftAssoc level.kinds r) (BreaksOff level) ∧ Sound (leftAssoc level.kinds r) (Reads level) :=
    ⟨leftAssoc_fatal hne hr.1 hr.2, leftAssoc_sound hne hr.2⟩
  have product := @step .product (by decide) _ ⟨h, sound⟩
  have sum := @step .sum (by decide) _ product
  have comparison := @step .comparison (by decide) _ ⟨rangeOf_fatal sum.1 sum.2, rangeOf_sound sum.2⟩
  have conjunction := @step .and (by decide) _ comparison
  exact (@step .or (by decide) _ conjunction).1

theorem exprWithin_fatal (depth : Nat) : Fatal (exprWithin depth) (BreaksOff .or) := by
  induction depth with
  | zero => exact (@alt_fatal _ _ [] trivial).label "expression" _
  | succ depth ih =>
    have sound := exprWithin_sound depth
    exact (binary_fatal (unary_fatal ih sound _) (unary_sound sound _)).label "expression" _

theorem expr_fatal : Fatal expr (BreaksOff .or) := fun i _ h => exprWithin_fatal (i.left + 1) h

/-- A statement breaks off before a form without grammar. -/
def NodeBreaksOff (w rest : List Token) : Prop :=
  StatementAwaits w ∧ StartsUnsupported rest ∨ w = [] ∧ ∃ hash ∈ rest.head?, hash.kind = .hash

theorem node_fatal : Fatal node NodeBreaksOff := by
  have directive : Fatal (unimplemented (tag .hash) "directive" : Rule Statement) NodeBreaksOff := by
    refine unimplemented_fatal (tag_fatal _) (tag_sound _) _ ?_
    rintro _ rest tok ⟨rfl, hk⟩
    exact .inr ⟨rfl, tok, rfl, hk⟩
  have value := expr_fatal.pair_of_first (tag_fatal .semicolon)
  refine alt_fatal ⟨?_, ?_⟩
  · exact directive
  refine alt_fatal ⟨?_, ?_⟩
  · have bound : Fatal (pair (tag .kwLet) (terminated name (tag .assign))) NodeBreaksOff :=
      (tag_fatal _).pair_of_first ((name_fatal.pair_of_first (tag_fatal _)).map _)
    have boundSound := (tag_sound .kwLet).pair (name_sound.terminated (tag_sound .assign))
    refine (bound.pair boundSound value ?_).map _
    rintro _ w rest p ⟨_, _, rfl, ⟨rfl, hs⟩, u, _, assign, rfl, hn, rfl, ha⟩ ⟨awaits, starts⟩
    have awaits := StatementAwaits.bound hs hn ha awaits
    rw [show [p.1] ++ (u ++ [assign]) ++ w = p.1 :: (u ++ assign :: w) by simp]
    exact .inl ⟨awaits, starts⟩
  · exact (value.mono fun w rest h => .inl ⟨.value h.1, h.2⟩).map _

theorem module_fatal : Fatal (many0 node) fun w rest =>
    ∃ forms u v, w = u ++ v ∧ Derives (.module forms) u ∧ NodeBreaksOff v rest := by
  refine node_fatal.many0 node_sound ?_
  intro u read v rest hread breaks
  exact ⟨_, u, v, rfl, (statements_derives hread).1, breaks⟩

/-! ## Whole parses -/

theorem many0_node_of_isUnimplemented {failure : Failure} (h : parseModule toks = .error failure)
    (reported : failure.isUnimplemented = true) : many0 node { tokens := toks.toArray } = .error failure.error := by
  rcases parseModule_error h with ⟨feature, reason⟩ | ⟨statements, j, cause, left⟩
  · unfold parseModule at h
    extract_lets start at h
    split at h
    · cases h
    · next e failed =>
      have same : failure.error = e := by split at h <;> cases h <;> rfl
      unfold allConsuming at failed
      rw [same] at reason ⊢
      split at failed
      · next error => cases failed; exact error
      · split at failed
        · cases failed
        · cases failed; cases reason
  · -- tokens left over, and the cause is a mismatch
    have mismatch := left.mismatch
    rw [Failure.isUnimplemented, left.error, left.explained] at reported
    cases reason : cause.reason with
    | unimplemented feature => simp [Error.isMismatch, Reason.unwrapped, reason] at mismatch
    | _ => simp [Error.isUnimplemented, Error.here, reason] at reported

theorem parseModule_of_cut {e : Error} {feature : Bytes} (h : many0 node { tokens := toks.toArray } = .error e)
    (reason : e.reason = .unimplemented feature) : parseModule toks = .error { error := e } := by
  unfold parseModule
  simp only [allConsuming, h, reason]

/-- At `p` the tokens start a form without grammar: a directive behind whole statements, or another form
where an operand is due. Operands are due where an integer literal could stand. -/
def Unsupported (toks : List Token) (p : Nat) : Prop :=
  (∃ forms, Derives (.module forms) (toks.take p)) ∧ (∃ hash, toks[p]? = some hash ∧ hash.kind = .hash) ∨
    (∃ literal rest forms, literal.kind = .intLit ∧ Derives (.module forms) (toks.take p ++ literal :: rest)) ∧
      StartsUnsupported (toks.drop p)

theorem Unsupported.cuts {toks : List Token} {p : Nat} (h : Unsupported toks p) :
    toks.drop p ≠ [] ∧ (many0 node).Cuts (toks.take p) (toks.drop p) := by
  rcases h with ⟨⟨forms, whole⟩, hash, found, hk⟩ | ⟨awaits, starts⟩
  · obtain ⟨inside, rfl⟩ := List.getElem?_eq_some_iff.1 found
    rw [List.drop_eq_getElem_cons inside]
    have cuts := statements_cut whole (List.cons_ne_nil _ _) (directive_cuts hk (toks.drop (p + 1)))
    rw [List.append_nil] at cuts
    exact ⟨List.cons_ne_nil _ _, cuts⟩
  · have awaits := moduleAwaits_iff.2 awaits
    generalize toks.take p = before at awaits
    obtain ⟨whole, awaits⟩ := awaits
    exact ⟨starts.ne_nil, statements_cut whole starts.ne_nil (awaits.cuts starts)⟩

theorem Unsupported.reported {p : Nat} (h : Unsupported toks p) :
    ∃ failure, parseModule toks = .error failure ∧ failure.isUnimplemented = true ∧ failure.error.pos = p := by
  obtain ⟨more, cuts⟩ := h.cuts
  have split : ({ tokens := toks.toArray } : Input).unread = toks.take p ++ toks.drop p :=
    (unread_start toks).trans (List.take_append_drop p toks).symm
  obtain ⟨e, feature, failed, reason, pos⟩ := cuts _ (start_inRange toks) split
  refine ⟨{ error := e }, parseModule_of_cut failed reason, ?_, ?_⟩
  · simp [Failure.isUnimplemented, Error.isUnimplemented, reason]
  · have inside : p < toks.length := Nat.lt_of_not_le fun behind => more (List.drop_eq_nil_of_le behind)
    rw [pos, List.length_take, Nat.min_eq_left (Nat.le_of_lt inside)]
    exact Nat.zero_add p

theorem exists_unsupported {failure : Failure} (h : parseModule toks = .error failure)
    (reported : failure.isUnimplemented = true) : ∃ p, Unsupported toks p := by
  have failed := many0_node_of_isUnimplemented h reported
  have fatal := many0_error failed
  obtain ⟨w, rest, split, forms, u, v, rfl, whole, breaks⟩ := module_fatal failed fatal
  rw [unread_start] at split
  refine ⟨(u ++ v).length, ?_⟩
  rw [Unsupported, split, List.take_left, List.drop_left]
  rcases breaks with ⟨awaits, starts⟩ | ⟨rfl, hash, head, hk⟩
  · exact .inr ⟨moduleAwaits_iff.1 (.last whole awaits), starts⟩
  · obtain ⟨rest, rfl⟩ := List.head?_eq_some_iff.1 head
    rw [List.append_nil]
    exact .inl ⟨⟨forms, whole⟩, hash, by simp, hk⟩

/-- A parse reports a form without grammar exactly where the tokens start one that could not be anything
else, and this place is the only one. -/
theorem unsupported_reported (toks : List Token) :
    (∀ p, Unsupported toks p ↔ ∃ failure, parseModule toks = .error failure ∧ failure.isUnimplemented = true ∧
      failure.error.pos = p) ∧
    ∀ p q, Unsupported toks p → Unsupported toks q → p = q := by
  have unique (p q : Nat) (hp : Unsupported toks p) (hq : Unsupported toks q) : p = q := by
    obtain ⟨failure, parsed, _, pos⟩ := hp.reported
    obtain ⟨failure', parsed', _, pos'⟩ := hq.reported
    rw [parsed] at parsed'
    cases parsed'
    exact pos.symm.trans pos'
  refine ⟨fun p => ⟨Unsupported.reported, ?_⟩, unique⟩
  rintro ⟨failure, parsed, reported, rfl⟩
  obtain ⟨q, hq⟩ := exists_unsupported parsed reported
  obtain ⟨failure', parsed', _, rfl⟩ := hq.reported
  rw [parsed] at parsed'
  cases parsed'
  exact hq

end LetStack.Grammar
