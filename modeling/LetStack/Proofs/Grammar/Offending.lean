import LetStack.Proofs.Grammar.Firm
import LetStack.Proofs.Grammar.Unsupported

/-!
Where the cause of a failed `parseModule` lies: behind the longest firm prefix of the tokens. This is the longest
prefix that begins a module exactly if that one is firm. `Derives.passed` and `FirmStatement.attains` say how far the
rules get.
-/

namespace LetStack.Grammar
open Ast Rule

/-! ## Phrases are read to the end -/

/-- What a phrase is read by gets past it, whatever stands behind it. -/
def Passed : Phrase → List Token → Prop
  | .expr level _, w => ∀ depth n rest, w.length ≤ depth + 1 → w.length ≤ n →
      (ruleAt (exprWithin depth) n level).Passes w rest
  | .steps level _, w => ∀ depth n rest, w.length ≤ depth + 1 → w.length ≤ n →
      (many0 (pair (oneOf level.kinds) (ruleAt (exprWithin depth) n level.tighter))).Passes w rest
  | .elements _, w => ∀ depth rest, w.length ≤ depth →
      (many0 (preceded (tag .comma) (exprWithin depth))).Passes w rest
  | _, _ => True

variable {steps : List (Operator × ExprForm)} {v u w : List Token} {tok opening : Token} {op : Operator}
  {t first : ExprForm} {n : NameForm} {depth : Nat} {others : List ExprForm}

theorem Derives.steps_next {level : Level} (h : Derives (.steps level steps) v) :
    v = [] ∨ ∀ rest, Stops level.tighter (v ++ rest) := by
  cases h with
  | noStep => exact .inl rfl
  | step hop => exact .inr fun _ => stops_of_operator hop

theorem Derives.elements_next {ts : List ExprForm} (h : Derives (.elements ts) v) :
    v = [] ∨ ∀ rest, Stops .or (v ++ rest) := by
  cases h with
  | noElement => exact .inl rfl
  | element hc => exact .inr fun _ => stops_of_none (by rw [hc]; rfl)

theorem step_passed {level : Level} (hop : (tok.kind, op) ∈ level.operators) (hd : Derives (.expr level.tighter t) u)
    (ht : Passed (.expr level.tighter t) u) (hds : Derives (.steps level steps) v)
    (hs : Passed (.steps level steps) v) : Passed (.steps level ((op, t) :: steps)) (tok :: (u ++ v)) := by
  intro depth n rest hdepth hn
  simp only [List.length_cons, List.length_append] at hdepth hn
  have hk : tok.kind ∈ level.kinds := List.mem_map.2 ⟨_, hop, rfl⟩
  have operand_built := ruleAt_built (exprWithin_built depth) n level.tighter
  have step_built := (Built.oneOf level.kinds).pair operand_built
  rcases hds.steps_next with rfl | next
  · have step := oneOf_pair_passes hk (ht depth n rest (by omega) (by omega))
    rw [List.append_nil]
    exact step.many0 step_built (List.cons_ne_nil _ _)
  · have operand := parse_of_derives hd depth n (v ++ rest) (by omega) (by omega) (next rest)
    have step : (pair (oneOf level.kinds) (ruleAt (exprWithin depth) n level.tighter)).Yields
        (tok :: u ++ (v ++ rest)) _ (v ++ rest) := (oneOf_yields hk).pair operand
    exact step.many0_passes step_built (List.cons_ne_nil _ _) (hs depth n rest (by omega) (by omega))

theorem chain_passed {level : Level} (hne : level.operators ≠ []) (hd : Derives (.expr level.tighter first) u)
    (hf : Passed (.expr level.tighter first) u) (hds : Derives (.steps level steps) v)
    (hs : Passed (.steps level steps) v) : Passed (.expr level (grouped first steps)) (u ++ v) := by
  intro depth n rest hdepth hn
  simp only [List.length_append] at hdepth hn
  have operand_built := ruleAt_built (exprWithin_built depth) n level.tighter
  rw [ruleAt_chain hne]
  rcases hds.steps_next with rfl | next
  · rw [List.append_nil]
    have operand := hf depth n rest (by omega) (by omega)
    exact (operand.pair operand_built ((Built.oneOf _).pair operand_built).many0 fun _ _ => many0_error).map _
  · have operand := parse_of_derives hd depth n (v ++ rest) (by omega) (by omega) (next rest)
    exact (operand.pair_passes operand_built (hs depth n rest (by omega) (by omega))).map _

theorem range_passed {l r : ExprForm} (hop : (tok.kind, op) ∈ rangeOperators) (hd : Derives (.expr .sum l) u)
    (hr : Passed (.expr .sum r) v) : Passed (.expr .range (.binary op l r)) (u ++ tok :: v) := by
  intro depth n rest hdepth hn
  simp only [List.length_append, List.length_cons] at hdepth hn
  have hk : tok.kind ∈ rangeOperators.map Prod.fst := List.mem_map.2 ⟨_, hop, rfl⟩
  have left := parse_of_derives hd depth n (tok :: v ++ rest) (by omega) (by omega) (stops_of_range hop)
  have step := oneOf_pair_passes hk (hr depth n rest (by omega) (by omega))
  exact (left.pair_passes (ruleAt_built (exprWithin_built depth) n .sum) step.opt).map _

/-! ## Primary expressions -/

theorem overruns_single {r : Rule Expr} {level : Level} (sound : Sound r (Reads level)) (tok : Token)
    (rest : List Token) : r.Overruns [tok] rest := by
  intro i a j _ hi matched
  obtain ⟨w, split, read⟩ := sound matched
  obtain ⟨tok', ts, rfl, _⟩ := read.derives.startsWith
  rw [hi] at split
  cases split
  simp

theorem guards_sound : ∀ r ∈ guards, Sound r (Reads .primary) := by
  intro r hr
  simp only [guards, List.mem_cons, List.not_mem_nil, or_false] at hr
  rcases hr with rfl | rfl | rfl | rfl | rfl | rfl
  · exact literal_sound
  all_goals exact unimplemented_sound _ _ _

theorem literal_passed {kind : LiteralKind} (h : (tok.kind, kind) ∈ literalKinds) :
    Passed (.expr .primary (.literal kind tok.text)) [tok] := by
  intro depth n rest _ _
  have hk : tok.kind ∈ literalKinds.map Prod.fst := List.mem_map.2 ⟨_, h, rfl⟩
  have hit : (oneOf (literalKinds.map Prod.fst)).Passes [tok] rest := (oneOf_yields hk).passes
  exact alt_passes (fun s hs => absurd hs List.not_mem_nil) (hit.map _)

theorem plainName_passed (hd : Derives (.name n) w) : Passed (.expr .primary (.name n)) w := by
  intro depth m rest _ _
  have hit : (map name Expr.name).Passes w rest := (parse_of_derives hd rest).passes.map _
  obtain ⟨tok, rfl, _⟩ := name_kind hd
  have before : ∀ r ∈ guards ++ [path], r.Overruns [tok] rest := by
    intro r hr
    rcases List.mem_append.1 hr with hr | hr
    · exact overruns_single (guards_sound r hr) tok rest
    · cases List.mem_singleton.1 hr
      exact overruns_single path_sound tok rest
  exact alt_passes before hit

theorem segment_yields {dot : Token} (hdot : dot.kind = .dot) (hn : Derives (.name n) u) (rest : List Token) :
    (preceded (tag .dot) name).Yields (dot :: u ++ rest) (fun a => a.form = n) rest :=
  ((tag_yields hdot).pair (parse_of_derives hn rest)).map fun _ hp => hp.2

theorem segments_passes {ns : List NameForm} (h : Derives (.segments ns) w) (rest : List Token) :
    (many0 (preceded (tag .dot) name)).Passes w rest := by
  have built : Built (preceded (tag .dot) name) := (Built.tag .dot).preceded name_built
  generalize hp : Phrase.segments ns = p at h
  induction h generalizing ns with
  | noSegment => exact many0_passes_nil built rest
  | @segment dot n ns u v hdot hn _ _ ih =>
    exact (segment_yields hdot hn (v ++ rest)).many0_passes built (List.cons_ne_nil _ _) (ih rfl)
  | _ => cases hp

theorem path_passed {second : NameForm} {others : List NameForm} (hd : Derives (.name n) u)
    (hds : Derives (.segments (second :: others)) v) :
    Passed (.expr .primary (.path (n :: second :: others))) (u ++ v) := by
  intro depth m rest _ _
  have head := parse_of_derives hd (v ++ rest)
  obtain ⟨tok, rfl, hk⟩ := name_kind hd
  cases hds with
  | @segment dot _ _ u v hdot hn hv =>
    have built : Built (preceded (tag .dot) name) := (Built.tag .dot).preceded name_built
    have segments := (segment_yields hdot hn (v ++ rest)).pair_passes built (segments_passes hv rest)
    have hit : path.Passes ([tok] ++ (dot :: u ++ v)) rest :=
      (Yields.pair_passes name_built head segments).map _
    have before : ∀ r ∈ guards, r.Overruns ([tok] ++ (dot :: u ++ v)) rest := by
      intro r hr
      refine Misses.overruns (guards_miss hk (fun _ => ?_) r hr)
      exact headNotIn_cons (by rw [hdot]; decide)
    exact alt_passes before hit

/-! ## Parentheses and prefix operators -/

theorem exprWithin_passes (hd : Derives (.expr .or t) w) (h : Passed (.expr .or t) w) (hdepth : w.length ≤ depth)
    (rest : List Token) : (exprWithin depth).Passes w rest := by
  obtain ⟨tok, ts, rfl, _⟩ := hd.startsWith
  cases depth with
  | zero => exact absurd hdepth (Nat.not_succ_le_zero _)
  | succ depth =>
    rw [exprWithin_succ]
    exact (h depth (depth + 1) rest hdepth hdepth).label _ _

theorem element_passed {comma : Token} {ts : List ExprForm} (hc : comma.kind = .comma) (hd : Derives (.expr .or t) u)
    (ht : Passed (.expr .or t) u) (hds : Derives (.elements ts) v) (hts : Passed (.elements ts) v) :
    Passed (.elements (t :: ts)) (comma :: (u ++ v)) := by
  intro depth rest hdepth
  simp only [List.length_cons, List.length_append] at hdepth
  have built : Built (preceded (tag .comma) (exprWithin depth)) := (Built.tag .comma).preceded (exprWithin_built depth)
  rcases hds.elements_next with rfl | next
  · have element : (preceded (tag .comma) (exprWithin depth)).Passes (comma :: u) rest :=
      (tag_pair_passes hc (exprWithin_passes hd ht (by omega) rest)).map _
    rw [List.append_nil]
    exact element.many0 built (List.cons_ne_nil _ _)
  · have element : (preceded (tag .comma) (exprWithin depth)).Yields (comma :: u ++ (v ++ rest)) (fun e => e.form = t)
        (v ++ rest) :=
      ((tag_yields hc).pair (exprWithin_yields hd (parse_of_derives hd) (by omega) (next rest))).map fun _ hp => hp.2
    exact element.many0_passes built (List.cons_ne_nil _ _) (hts depth rest (by omega))

theorem parenthesized_passed {trailing : List Token} {closing : Token} (ho : opening.kind = .lParen)
    (hd : Derives (.expr .or first) u) (hds : Derives (.elements others) v) (hend : ElementsEnd trailing closing)
    (t : ExprForm) : Passed (.expr .primary t) (opening :: (u ++ v ++ trailing ++ [closing])) := by
  intro depth n rest hdepth _
  simp only [List.length_cons, List.length_append, List.length_nil] at hdepth
  have hit : (tuple (exprWithin depth)).Yields _ _ rest :=
    tuple_yields ho hd (parse_of_derives hd) hds (parse_of_derives hds) hend (by omega)
  refine Yields.passes (P := fun e => e.form = parenthesized first others trailing) ?_
  simp only [List.cons_append, List.append_assoc, List.nil_append]
  exact primary_of_tuple ho hit

theorem noPrefix_passed (hd : Derives (.expr .primary t) w) (h : Passed (.expr .primary t) w) :
    Passed (.expr .prefixed t) w := by
  intro depth n rest hdepth hn
  have hit : (primary (exprWithin depth)).Passes w rest := h depth n rest hdepth hn
  obtain ⟨tok, ts, rfl, hk⟩ := hd.startsWith
  cases n with
  | zero => exact absurd hn (Nat.not_succ_le_zero _)
  | succ n =>
    have hop : tok.kind ∉ [Token.Kind.minus, .bang] := by
      have all : ∀ k ∈ Level.primary.starts, k ∉ [Token.Kind.minus, .bang] := by decide
      exact all _ hk
    have before (f : Token × Expr → Expr) :
        ∀ r ∈ [map (pair (oneOf [.minus, .bang]) (unary (exprWithin depth) n)) f], r.Overruns (tok :: ts) rest := by
      intro r hr
      cases List.mem_singleton.1 hr
      exact Misses.overruns (((oneOf_misses (headNotIn_cons hop)).pair _).map _)
    exact alt_passes (before _) hit

theorem prefixed_passed (hop : (tok.kind, op) ∈ prefixOperators) (h : Passed (.expr .prefixed t) w) :
    Passed (.expr .prefixed (.unary op t)) (tok :: w) := by
  intro depth n rest hdepth hn
  simp only [List.length_cons] at hdepth hn
  have hk : tok.kind ∈ prefixOperators.map Prod.fst := List.mem_map.2 ⟨_, hop, rfl⟩
  cases n with
  | zero => exact absurd hn (Nat.not_succ_le_zero _)
  | succ n =>
    have hit := oneOf_pair_passes hk (h depth n rest (by omega) (by omega))
    exact alt_passes (fun s hs => absurd hs List.not_mem_nil) (hit.map _)

theorem Derives.passed {p : Phrase} (h : Derives p w) : Passed p w := by
  induction h with
  | noStep =>
    intro depth n rest _ _
    exact many0_passes_nil ((Built.oneOf _).pair (ruleAt_built (exprWithin_built depth) n _)) rest
  | step hop hd hds iht ihs => exact step_passed hop hd iht hds ihs
  | chain hne hd hds ihf ihs => exact chain_passed hne hd ihf hds ihs
  | noRange _ ih =>
    intro depth n rest hdepth hn
    have built := ruleAt_built (exprWithin_built depth) n .sum
    exact ((ih depth n rest hdepth hn).pair built ((Built.oneOf _).pair built).opt fun _ _ => opt_error).map _
  | range hop hd _ _ ihr => exact range_passed hop hd ihr
  | noPrefix hd ih => exact noPrefix_passed hd ih
  | prefixed hop _ ih => exact prefixed_passed hop ih
  | literal hk => exact literal_passed hk
  | plainName hd => exact plainName_passed hd
  | path hd hds => exact path_passed hd hds
  | noElement =>
    intro depth rest _
    exact many0_passes_nil ((Built.tag _).preceded (exprWithin_built depth)) rest
  | element hc hd hds iht ihs => exact element_passed hc hd iht hds ihs
  | unit ho hc =>
    intro depth n rest _ _
    exact (primary_of_tuple ho (unit_yields ho hc depth rest)).passes
  | group ho hd hc => simpa using parenthesized_passed ho hd .noElement ⟨.inl rfl, hc⟩ _
  | single ho hd hcomma hc => simpa using parenthesized_passed ho hd .noElement ⟨.inr ⟨_, hcomma, rfl⟩, hc⟩ _
  | several ho hd hds htrailing hc => exact parenthesized_passed ho hd hds ⟨htrailing, hc⟩ _
  | _ => trivial

/-! ## Firm words are reached -/

theorem separated_passes (hd : Derives (.expr .or first) u) (hds : Derives (.elements others) v)
    (hdepth : u.length + v.length ≤ depth) (rest : List Token) :
    (separated (tag .comma) (exprWithin depth)).Passes (u ++ v) rest := by
  have built := exprWithin_built depth
  rcases hds.elements_next with rfl | next
  · rw [List.append_nil]
    have head := exprWithin_passes hd hd.passed (Nat.le_of_add_right_le hdepth) rest
    exact (head.pair built ((Built.tag .comma).preceded built).many0 fun _ _ => many0_error).map _
  · have head := exprWithin_yields hd (parse_of_derives hd) (Nat.le_of_add_right_le hdepth) (next rest)
    exact (head.pair_passes built (hds.passed depth rest (Nat.le_of_add_left_le hdepth))).map _

theorem elements_attain {trailing : List Token} (ho : opening.kind = .lParen) (hd : Derives (.expr .or first) u)
    (hds : Derives (.elements others) v)
    (htrailing : trailing = [] ∨ ∃ comma : Token, comma.kind = .comma ∧ trailing = [comma])
    (hdepth : u.length + v.length ≤ depth) (rest : List Token) :
    (tuple (exprWithin depth)).Attains (opening :: (u ++ v ++ trailing)) rest := by
  have built := separated_built (exprWithin_built depth)
  have comma_built : Built (opt (tag .comma)) := (Built.tag .comma).opt
  have elements : (pair (separated (tag .comma) (exprWithin depth)) (opt (tag .comma))).Passes (u ++ v ++ trailing)
      rest := by
    rcases htrailing with rfl | ⟨comma, hc, rfl⟩
    · rw [List.append_nil]
      exact (separated_passes hd hds hdepth rest).pair built comma_built fun _ _ => opt_error
    · exact (separated_passes hd hds hdepth (comma :: rest)).pair_opt_tag built hc
  have closing := elements.opt.attains.pair (built.pair comma_built).opt (.tag .rParen)
  exact (tag_pair_attains ho closing).map _

theorem unary_of_tuple {rest : List Token} {inner : Rule Expr} {n : Nat} (ho : opening.kind = .lParen)
    (h : (tuple inner).Attains (opening :: w) rest) : (unary inner (n + 1)).Attains (opening :: w) rest := by
  have primary : (primary inner).Attains (opening :: w) rest := by
    show (alt (guards ++ [path, map name Expr.name] ++ [tuple inner])).Attains _ _
    refine alt_attains ⟨_, List.mem_append_right _ (.head _), h⟩ (List.forall_iff_forall_mem.2 fun r hr => ?_)
    rcases List.mem_append.1 hr with hr | hr
    · exact Misses.overruns (before_tuple_misses ho (w ++ rest) r hr)
    · cases List.mem_singleton.1 hr
      exact h.ok
  refine alt_attains ⟨_, .tail _ (.head _), primary⟩ ⟨?_, ?_⟩
  · exact Misses.overruns (((oneOf_misses (headNotIn_cons (by rw [ho]; decide))).pair _).map _)
  · exact primary.ok

theorem FirmOperand.attains (h : FirmOperand w) {n : Nat} (hdepth : w.length ≤ depth + 1) (hn : w.length ≤ n)
    (rest : List Token) : (unary (exprWithin depth) n).Attains w rest := by
  have built := exprWithin_built depth
  induction h generalizing n with
  | nothing => exact (unary_built built n).attains_nil rest
  | @prefixed tok op w hop _ ih =>
    simp only [List.length_cons] at hdepth hn
    have hk : tok.kind ∈ prefixOperators.map Prod.fst := List.mem_map.2 ⟨_, hop, rfl⟩
    cases n with
    | zero => exact absurd hn (Nat.not_succ_le_zero _)
    | succ n =>
      have inner : (unary (exprWithin depth) n).Attains w rest := ih (by omega) (by omega)
      have operand := oneOf_pair_attains hk inner
      refine alt_attains ⟨_, .head _, operand.map _⟩ ⟨?_, ?_⟩
      · exact (operand.map _).ok
      · -- no primary expression starts with an operator
        intro i e j _ hi matched
        obtain ⟨_, split, read⟩ := primary_sound (exprWithin_sound depth) matched
        obtain ⟨tok', ts, rfl, start⟩ := read.derives.startsWith
        obtain ⟨rfl, _⟩ := List.cons.inj (hi.symm.trans split)
        have all : ∀ pair ∈ prefixOperators, pair.1 ∉ Level.primary.starts := by decide
        exact absurd start (all _ hop)
  | opened ho =>
    cases n with
    | zero => exact absurd hn (Nat.not_succ_le_zero _)
    | succ n =>
      have elements_built := ((separated_built built).pair (Built.tag .comma).opt).opt
      exact unary_of_tuple ho ((tag_pair_attains ho ((elements_built.pair (.tag .rParen)).attains_nil rest)).map _)
  | @elements _ _ _ u v trailing ho hd hds htrailing =>
    simp only [List.length_cons, List.length_append] at hdepth hn
    cases n with
    | zero => exact absurd hn (Nat.not_succ_le_zero _)
    | succ n => exact unary_of_tuple ho (elements_attain ho hd hds htrailing (by omega) rest)

theorem ruleAt_attains {inner : Rule Expr} (built : Built inner) {n : Nat} {rest : List Token}
    (h : (unary inner n).Attains w rest) : (ruleAt inner n .or).Attains w rest := by
  have chain {kinds : List Token.Kind} {level : Level} (h : (ruleAt inner n level).Attains w rest) :
      (leftAssoc kinds (ruleAt inner n level)).Attains w rest :=
    have built := ruleAt_built built n level
    (h.pair built ((Built.oneOf _).pair built).many0).map _
  have product : (ruleAt inner n .product).Attains w rest := @chain _ .prefixed h
  have sum : (ruleAt inner n .sum).Attains w rest := @chain _ .product product
  have sum_built := ruleAt_built built n .sum
  have range : (ruleAt inner n .range).Attains w rest := (sum.pair sum_built ((Built.oneOf _).pair sum_built).opt).map _
  have comparison : (ruleAt inner n .comparison).Attains w rest := @chain _ .range range
  have conjunction : (ruleAt inner n .and).Attains w rest := @chain _ .comparison comparison
  exact @chain _ .and conjunction

theorem FirmExpr.attains (h : FirmExpr w) (rest : List Token) : expr.Attains w rest := by
  have within {i : Input} (hi : i.unread = w ++ rest) : (exprWithin (i.left + 1)).Attains w rest := by
    have hleft : w.length ≤ i.left + 1 := by
      rw [i.left_eq_length, hi, List.length_append]
      omega
    rw [exprWithin_succ]
    cases h with
    | whole whole => exact (whole.passed i.left (i.left + 1) rest hleft hleft).attains.label _ _
    | operand operand => exact (ruleAt_attains (exprWithin_built i.left) (operand.attains hleft hleft rest)).label _ _
  constructor
  · intro i a j inside hi matched
    exact (within hi).ok inside hi matched
  · intro i e inside hi failed mismatch
    exact (within hi).error inside hi failed mismatch

theorem overruns_of_open {r : Rule Statement} (sound : Sound r StatementRead)
    (open' : ∀ tok ∈ w, tok.kind ≠ .semicolon) (rest : List Token) : r.Overruns w rest := by
  intro i s j _ hi matched
  obtain ⟨u, split, read⟩ := sound matched
  rcases List.append_eq_append_iff.1 (hi.symm.trans split) with ⟨v, _, hrest⟩ | ⟨v, hw, _⟩
  · rw [hrest, List.length_append]
    exact Nat.le_add_left _ _
  · -- the statement lies within the word, and so does its semicolon
    have last := List.getLast?_eq_some_getLast read.derives.statement_ne_nil
    have inside : u.getLast read.derives.statement_ne_nil ∈ w :=
      hw ▸ List.mem_append_left v (List.mem_of_getLast? last)
    exact absurd (read.derives.ends _ last) (open' _ inside)

theorem FirmStatement.attains (h : FirmStatement w) (rest : List Token) : node.Attains w rest := by
  have others {r : Rule Statement} (sound : Sound r StatementRead) := overruns_of_open sound h.no_semicolon rest
  have bound_built := name_built.terminated (Built.tag .assign)
  have head_built := (Built.tag .kwLet).pair bound_built
  have value_built := expr_built.pair (Built.tag .semicolon)
  have one : ∃ r ∈ [letStatement, exprStatement], r.Attains w rest := by
    cases h with
    | value firm => exact ⟨exprStatement, .tail _ (.head _), ((firm.attains rest).pair expr_built (.tag _)).map _⟩
    | keyword hstart =>
      have head := tag_pair_attains hstart (bound_built.attains_nil rest)
      exact ⟨letStatement, .head _, (head.pair head_built value_built).map _⟩
    | bound hstart hn =>
      have name := (parse_of_derives hn rest).passes.attains
      have head := tag_pair_attains hstart ((name.pair name_built (.tag .assign)).map Prod.fst)
      exact ⟨letStatement, .head _, (head.pair head_built value_built).map _⟩
    | @defined start assign n u w hstart hn ha firm =>
      have value := (firm.attains rest).pair expr_built (.tag .semicolon)
      have bound : (terminated name (tag .assign)).Yields (u ++ assign :: (w ++ rest)) (fun a => a.form = n)
          (w ++ rest) := ((parse_of_derives hn _).pair (tag_yields ha)).map fun _ hp => hp.1
      have head := (tag_yields hstart).pair bound
      have word (x : List Token) : start :: (u ++ assign :: x) = start :: (u ++ [assign]) ++ x := by simp
      rw [word] at head
      rw [word]
      exact ⟨letStatement, .head _, (head.pair_attains head_built value).map _⟩
  have statement : (alt [letStatement, exprStatement]).Attains w rest := by
    refine alt_attains one ⟨?_, ?_⟩
    · exact others letStatement_sound
    · exact others exprStatement_sound
  refine alt_attains ⟨_, .tail _ (.head _), statement⟩ ⟨?_, ?_⟩
  · exact others (unimplemented_sound _ _ _)
  · exact statement.ok

/-! ## The cause of tokens left over -/

namespace LeftOver

variable {toks : List Token} {failure : Failure} {statements : List Statement} {j : Input} {cause : Error}

theorem take_derives (h : LeftOver toks failure statements j cause) :
    ∃ forms, Derives (.module forms) (toks.take j.pos) := by
  obtain ⟨ss, parsed⟩ := h.take_parses
  exact ⟨_, (parseModule_sound parsed).1⟩

theorem cause_firm (h : LeftOver toks failure statements j cause) : FirmModule (toks.take cause.pos) := by
  obtain ⟨forms, derived⟩ := h.take_derives
  obtain ⟨w, rest, split, pos, firm⟩ := node_givesUp h.reaches.inRange h.missed h.mismatch
  have taken : toks.take cause.pos = toks.take j.pos ++ w := by
    rw [pos, List.take_add, ← h.unread_eq, split, List.take_left]
  exact taken ▸ .last derived firm

theorem firm_le (h : LeftOver toks failure statements j cause) {q : Nat} (hq : q ≤ toks.length)
    (firm : FirmModule (toks.take q)) : q ≤ cause.pos := by
  rcases Nat.lt_or_ge j.pos q with before | behind
  case inr => exact Nat.le_trans behind h.cause_pos.1
  generalize taken : toks.take q = x at firm
  obtain @⟨forms, u, w, hu, hw⟩ := firm
  have length : q = u.length + w.length := by
    rw [← List.length_append, ← taken, List.length_take_of_le hq]
  have whole : toks = u ++ (w ++ toks.drop q) := by
    rw [← List.append_assoc, ← taken, List.take_append_drop]
  -- the statements that were read cover `u` and end within `w`
  have covered : u.length ≤ j.pos := by
    have covers := many0_node_covers hu ((unread_start toks).trans whole) h.read
    have inside := h.pos_lt
    rw [h.unread_eq, List.length_drop, List.length_append, List.length_drop] at covers
    omega
  have read : toks.take j.pos = u ++ w.take (j.pos - u.length) := by
    rw [whole, List.take_append, List.take_of_length_le covered, List.take_append_of_le_length (by omega)]
  obtain ⟨_, derived⟩ := h.take_derives
  cases last : (w.take (j.pos - u.length)).getLast? with
  | none =>
    -- they end with `u`, and the rule is tried right behind it
    have same : j.pos = u.length := by
      have empty := congrArg List.length (List.getLast?_eq_none_iff.1 last)
      rw [List.length_take_of_le (by omega), List.length_nil] at empty
      omega
    have unread : j.unread = w ++ toks.drop q := by
      rw [h.unread_eq, same]
      conv => lhs; rw [whole]
      exact List.drop_left
    rw [length, ← same]
    exact (hw.attains _).error h.reaches.inRange unread h.missed h.mismatch
  | some tok =>
    -- they end with a semicolon of `w`, which has none
    have semicolon : tok.kind = .semicolon := by
      refine derived.ends tok ?_
      rw [read, List.getLast?_append, last]
      rfl
    exact absurd semicolon (hw.no_semicolon tok (List.mem_of_mem_take (List.mem_of_getLast? last)))

theorem cause_describes (h : LeftOver toks failure statements j cause) :
    ∃ k : Input, k.tokens = toks.toArray ∧ k.pos = cause.pos ∧ cause.found = k.found ∧ cause.span = k.span := by
  obtain ⟨k, _, _, further, _, rfl⟩ := node_built.placed.error h.reaches.inRange h.missed
  exact ⟨k, further.tokens.trans h.reaches.tokens, rfl, rfl, rfl⟩

end LeftOver

/-- A length of a prefix that begins a module, when no longer one does. -/
structure LongestViable (toks : List Token) (q : Nat) : Prop where
  le : q ≤ toks.length
  viable : Viable (toks.take q)
  longest : ∀ q' ≤ toks.length, Viable (toks.take q') → q' ≤ q

theorem exists_longestViable (toks : List Token) : ∃ q, LongestViable toks q := by
  suffices ∀ n ≤ toks.length, ∃ q ≤ n, Viable (toks.take q) ∧ ∀ q' ≤ n, Viable (toks.take q') → q' ≤ q by
    obtain ⟨q, le, viable, longest⟩ := this toks.length (Nat.le_refl _)
    exact ⟨q, le, viable, longest⟩
  intro n hn
  induction n with
  | zero => exact ⟨0, Nat.le_refl _, ⟨[], [], .noStatement⟩, fun q' hq' _ => hq'⟩
  | succ n ih =>
    by_cases viable : Viable (toks.take (n + 1))
    · exact ⟨n + 1, Nat.le_refl _, viable, fun q' hq' _ => hq'⟩
    · obtain ⟨q, le, hq, longest⟩ := ih (Nat.le_of_succ_le hn)
      refine ⟨q, Nat.le_succ_of_le le, hq, fun q' hq' hv => ?_⟩
      rcases Nat.le_succ_iff.1 hq' with before | rfl
      · exact longest q' before hv
      · exact absurd hv viable

/-- The cause of tokens left over describes the token behind the longest firm prefix, or the end of input. That
prefix begins a module, and it is the longest one that does exactly if the longest one is firm. -/
theorem cause_behind_longest_firm {toks : List Token} {failure : Failure} (failed : parseModule toks = .error failure)
    (trailing : failure.error.reason = .trailing) :
    ∃ cause, failure.cause = some cause ∧ cause.pos ≤ toks.length ∧
      FirmModule (toks.take cause.pos) ∧ (∀ q ≤ toks.length, FirmModule (toks.take q) → q ≤ cause.pos) ∧
      (∀ tok, toks[cause.pos]? = some tok → cause.found = tok.kind.describe ∧ cause.span = tok.span) ∧
      (toks[cause.pos]? = none → cause.found = "end of input") ∧
      ∃ q, LongestViable toks q ∧ cause.pos ≤ q ∧ (cause.pos = q ↔ FirmModule (toks.take q)) := by
  rcases parseModule_error failed with ⟨feature, reason⟩ | ⟨statements, j, cause, left⟩
  · rw [reason] at trailing
    cases trailing
  have firm := left.cause_firm
  have inside := left.cause_pos.2
  obtain ⟨k, tokens, pos, found, span⟩ := left.cause_describes
  have peeked : k.peek? = toks[cause.pos]? := by rw [Input.peek?, tokens, pos, List.getElem?_toArray]
  obtain ⟨q, longest⟩ := exists_longestViable toks
  have within := longest.longest _ inside firm.viable
  refine ⟨cause, left.explained, inside, firm, fun q hq => left.firm_le hq, ?_, ?_, q, longest, within, ?_, ?_⟩
  · intro tok here
    rw [found, span, Input.found, Input.span, peeked, here]
    exact ⟨rfl, rfl⟩
  · intro here
    rw [found, Input.found, peeked, here]
  · rintro rfl
    exact firm
  · exact fun hq => Nat.le_antisymm within (left.firm_le longest.le hq)

/-- `x; let y = (1 + 2, ;`, where an element or the closing parenthesis is missing. -/
private def openTuple : List Token :=
  [{ kind := .ident }, { kind := .semicolon }, { kind := .kwLet }, { kind := .ident }, { kind := .assign },
   { kind := .lParen }, { kind := .intLit }, { kind := .plus }, { kind := .intLit }, { kind := .comma },
   { kind := .semicolon }]

theorem open_tuple_cause :
    ∃ failure cause, parseModule openTuple = .error failure ∧ failure.error.reason = .trailing ∧
      failure.cause = some cause ∧ cause.pos = 10 ∧ FirmModule (openTuple.take 10) ∧
      cause.found = Token.Kind.describe .semicolon := by
  have outcome : (match parseModule openTuple with
      | .error f => some (f.error.reason, f.cause.map Error.pos)
      | .ok _ => none) = some (.trailing, some 10) := by decide +kernel
  cases parsed : parseModule openTuple with
  | ok statements =>
    rw [parsed] at outcome
    cases outcome
  | error failure =>
    rw [parsed] at outcome
    obtain ⟨reason, causePos⟩ : _ ∧ _ := by simpa using outcome
    obtain ⟨cause, explained, _, firm, _, described, _⟩ := cause_behind_longest_firm parsed reason
    rw [explained] at causePos
    have pos : cause.pos = 10 := by simpa using causePos
    rw [pos] at firm described
    exact ⟨failure, cause, rfl, reason, explained, pos, firm, (described _ rfl).1⟩

/-- `1 + ;`, where an operator has no right operand. -/
private def danglingOperator : List Token :=
  [{ kind := .intLit }, { kind := .plus }, { kind := .semicolon }]

/-- What `1 +` can go on with. -/
private def missingOperand : List Token := [{ kind := .intLit }, { kind := .semicolon }]

/-- The cause lies at the operator, although the tokens up to behind it begin a module. -/
theorem operator_given_back :
    ∃ failure cause, parseModule danglingOperator = .error failure ∧ failure.error.reason = .trailing ∧
      failure.cause = some cause ∧ cause.pos = 1 ∧ Viable (danglingOperator.take 2) ∧
      ¬LongestViable danglingOperator cause.pos := by
  have outcome : (match parseModule danglingOperator with
      | .error f => some (f.error.reason, f.cause.map Error.pos)
      | .ok _ => none) = some (.trailing, some 1) := by decide +kernel
  have viable : Viable (danglingOperator.take 2) := by
    have accepted : (parseModule (danglingOperator.take 2 ++ missingOperand)).isOk = true := by decide +kernel
    cases parsed : parseModule (danglingOperator.take 2 ++ missingOperand) with
    | ok statements => exact ⟨_, _, (parseModule_sound parsed).1⟩
    | error failure =>
      rw [parsed] at accepted
      cases accepted
  cases parsed : parseModule danglingOperator with
  | ok statements =>
    rw [parsed] at outcome
    cases outcome
  | error failure =>
    rw [parsed] at outcome
    obtain ⟨reason, cause, explained, pos⟩ : _ ∧ _ := by simpa using outcome
    refine ⟨failure, cause, rfl, reason, explained, pos, viable, fun longest => ?_⟩
    have tooFar := longest.longest 2 (by decide) viable
    rw [pos] at tooFar
    exact absurd tooFar (by decide)

end LetStack.Grammar
