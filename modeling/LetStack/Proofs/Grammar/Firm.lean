import LetStack.Proofs.Grammar.Awaiting
import LetStack.Proofs.Grammar.MissLaws

/-!
The token lists behind which statements give up. A firm one begins a statement and stops before its first operand,
inside the parentheses of that operand behind whole elements, or behind all of the expression; never behind an
operator or a dot that follows an operand, which `many0` and `opt` give back. Firm lists can be completed
(`FirmModule.viable`), and where `node` mismatches it has read one (`node_givesUp`).
-/

namespace LetStack.Grammar
open Ast Rule

/-- Prefix operators, and behind them nothing or parentheses that are still open. -/
inductive FirmOperand : List Token → Prop
  | nothing : FirmOperand []
  | prefixed {tok : Token} {op : Operator} {w : List Token} :
      (tok.kind, op) ∈ prefixOperators → FirmOperand w → FirmOperand (tok :: w)
  | opened {opening : Token} : opening.kind = .lParen → FirmOperand [opening]
  | elements {opening : Token} {first : ExprForm} {others : List ExprForm} {u v trailing : List Token} :
      opening.kind = .lParen → Derives (.expr .or first) u → Derives (.elements others) v →
      (trailing = [] ∨ ∃ comma : Token, comma.kind = .comma ∧ trailing = [comma]) →
      FirmOperand (opening :: (u ++ v ++ trailing))

/-- A whole expression, or one whose first operand is not complete. -/
inductive FirmExpr : List Token → Prop
  | whole {t : ExprForm} {w : List Token} : Derives (.expr .or t) w → FirmExpr w
  | operand {w : List Token} : FirmOperand w → FirmExpr w

inductive FirmStatement : List Token → Prop
  | value {w : List Token} : FirmExpr w → FirmStatement w
  | keyword {start : Token} : start.kind = .kwLet → FirmStatement [start]
  | bound {start : Token} {n : NameForm} {u : List Token} :
      start.kind = .kwLet → Derives (.name n) u → FirmStatement (start :: u)
  | defined {start assign : Token} {n : NameForm} {u w : List Token} :
      start.kind = .kwLet → Derives (.name n) u → assign.kind = .assign → FirmExpr w →
      FirmStatement (start :: (u ++ assign :: w))

/-- Whole statements, and behind them a firm one. -/
inductive FirmModule : List Token → Prop
  | last {forms : List StatementForm} {u w : List Token} :
      Derives (.module forms) u → FirmStatement w → FirmModule (u ++ w)

/-! ## Firm words can be completed -/

/-- Tokens that some more tokens complete to a module. -/
def Viable (w : List Token) : Prop := ∃ rest forms, Derives (.module forms) (w ++ rest)

theorem Derives.parenthesized {first : ExprForm} {others : List ExprForm} {u v trailing : List Token}
    {opening closing : Token} (ho : opening.kind = .lParen) (hu : Derives (.expr .or first) u)
    (hv : Derives (.elements others) v) (hend : ElementsEnd trailing closing) :
    ∃ t, Derives (.expr .primary t) (opening :: (u ++ v ++ trailing ++ [closing])) := by
  cases hv with
  | noElement =>
    rcases hend.trailing_eq with rfl | ⟨comma, hc, rfl⟩
    · exact ⟨_, by simpa using Derives.group ho hu hend.closing_kind⟩
    · exact ⟨_, by simpa using Derives.single ho hu hc hend.closing_kind⟩
  | element hc ht hts => exact ⟨_, .several ho hu (.element hc ht hts) hend.trailing_eq hend.closing_kind⟩

variable {w : List Token} {inner : Rule Expr}

theorem FirmOperand.completed (h : FirmOperand w) : ∃ c t, Derives (.expr .prefixed t) (w ++ c) := by
  have closing : ({ kind := .rParen } : Token).kind = .rParen := rfl
  induction h with
  | nothing =>
    have known : (({ kind := .intLit } : Token).kind, LiteralKind.int) ∈ literalKinds := by decide
    exact ⟨_, _, .noPrefix (.literal known)⟩
  | prefixed hop _ ih =>
    obtain ⟨c, t, ht⟩ := ih
    exact ⟨c, _, .prefixed hop ht⟩
  | opened ho => exact ⟨_, _, .noPrefix (.unit ho closing)⟩
  | elements ho hu hv htrailing =>
    obtain ⟨t, ht⟩ := Derives.parenthesized ho hu hv ⟨htrailing, closing⟩
    exact ⟨_, t, .noPrefix ht⟩

theorem FirmExpr.completed (h : FirmExpr w) : ∃ c t, Derives (.expr .or t) (w ++ c) := by
  cases h with
  | @whole t _ whole => exact ⟨[], t, by rwa [List.append_nil]⟩
  | operand operand =>
    obtain ⟨c, t, ht⟩ := operand.completed
    exact ⟨c, t, ht.loosest⟩

theorem FirmStatement.completed (h : FirmStatement w) : ∃ c s, Derives (.statement s) (w ++ c) := by
  have semicolon : ({ kind := .semicolon } : Token).kind = .semicolon := rfl
  have assign : ({ kind := .assign } : Token).kind = .assign := rfl
  have placeholder : Derives (.name .placeholder) [({ kind := .placeholder } : Token)] := .placeholder rfl
  obtain ⟨c, t, ht⟩ := (FirmExpr.operand .nothing).completed
  cases h with
  | value firm =>
    obtain ⟨c, t, ht⟩ := firm.completed
    have whole := Derives.exprStatement ht semicolon
    rw [List.append_assoc] at whole
    exact ⟨_, _, whole⟩
  | keyword hstart =>
    have whole := Derives.letStatement hstart placeholder assign ht semicolon
    exact ⟨_, _, whole⟩
  | bound hstart hn => exact ⟨_, _, .letStatement hstart hn assign ht semicolon⟩
  | defined hstart hn ha firm =>
    obtain ⟨c, t, ht⟩ := firm.completed
    have whole := Derives.letStatement hstart hn ha ht semicolon
    simp only [List.append_assoc, List.cons_append] at whole ⊢
    exact ⟨_, _, whole⟩

theorem FirmModule.viable (h : FirmModule w) : Viable w := by
  cases h with
  | last hu firm =>
    obtain ⟨c, s, hs⟩ := firm.completed
    have last : Derives (.module [s]) (_ ++ []) := .statements hs .noStatement
    rw [List.append_nil] at last
    have whole := hu.module_append last
    rw [← List.append_assoc] at whole
    exact ⟨c, _, whole⟩

/-! ## Semicolons -/

/-- Semicolons stand nowhere but at the ends of statements. -/
def Phrase.Ends : Phrase → List Token → Prop
  | .statement _, w | .module _, w => ∀ tok ∈ w.getLast?, tok.kind = .semicolon
  | _, w => ∀ tok ∈ w, tok.kind ≠ .semicolon

theorem Derives.ends {p : Phrase} (h : Derives p w) : p.Ends w := by
  have other {tok : Token} {kind : Token.Kind} (ht : tok.kind = kind) (hkind : kind ≠ .semicolon) :
      tok.kind ≠ .semicolon := by rw [ht]; exact hkind
  have trailingOther {trailing : List Token}
      (h : trailing = [] ∨ ∃ comma : Token, comma.kind = .comma ∧ trailing = [comma]) :
      ∀ tok ∈ trailing, tok.kind ≠ .semicolon := by
    rcases h with rfl | ⟨comma, hc, rfl⟩
    · simp
    · simp [hc]
  have last (u : List Token) {semicolon : Token} (hs : semicolon.kind = .semicolon) :
      ∀ tok ∈ (u ++ [semicolon]).getLast?, tok.kind = .semicolon := by
    rw [List.getLast?_concat]
    rintro _ ⟨⟩
    exact hs
  induction h with
  | ident hk => simp [Phrase.Ends, hk]
  | placeholder hk => simp [Phrase.Ends, hk]
  | noSegment | noStep | noElement => simp [Phrase.Ends]
  | segment hdot _ _ ihn ihs =>
    exact List.forall_mem_cons.2 ⟨other hdot (by decide), List.forall_mem_append.2 ⟨ihn, ihs⟩⟩
  | @step level tok op _ _ _ _ hop _ _ iht ihs =>
    have all : ∀ pair ∈ level.operators, pair.1 ≠ .semicolon := by cases level <;> decide
    exact List.forall_mem_cons.2 ⟨all _ hop, List.forall_mem_append.2 ⟨iht, ihs⟩⟩
  | chain _ _ _ ihf ihs => exact List.forall_mem_append.2 ⟨ihf, ihs⟩
  | noRange _ ih | noPrefix _ ih | plainName _ ih => exact ih
  | range hop _ _ ihl ihr =>
    have all : ∀ pair ∈ rangeOperators, pair.1 ≠ .semicolon := by decide
    exact List.forall_mem_append.2 ⟨ihl, List.forall_mem_cons.2 ⟨all _ hop, ihr⟩⟩
  | prefixed hop _ ih =>
    have all : ∀ pair ∈ prefixOperators, pair.1 ≠ .semicolon := by decide
    exact List.forall_mem_cons.2 ⟨all _ hop, ih⟩
  | literal hk =>
    have all : ∀ pair ∈ literalKinds, pair.1 ≠ .semicolon := by decide
    simpa [Phrase.Ends] using all _ hk
  | path _ _ ihn ihs => exact List.forall_mem_append.2 ⟨ihn, ihs⟩
  | element hc _ _ iht ihs =>
    exact List.forall_mem_cons.2 ⟨other hc (by decide), List.forall_mem_append.2 ⟨iht, ihs⟩⟩
  | unit ho hc => simp [Phrase.Ends, ho, hc]
  | group ho _ hc ih =>
    refine List.forall_mem_cons.2 ⟨other ho (by decide), List.forall_mem_append.2 ⟨ih, ?_⟩⟩
    simp [hc]
  | single ho _ hcomma hc ih =>
    refine List.forall_mem_cons.2 ⟨other ho (by decide), List.forall_mem_append.2 ⟨ih, ?_⟩⟩
    simp [hcomma, hc]
  | several ho _ _ htrailing hc ihf ihs =>
    have inside := List.forall_mem_append.2 ⟨List.forall_mem_append.2 ⟨ihf, ihs⟩, trailingOther htrailing⟩
    refine List.forall_mem_cons.2 ⟨other ho (by decide), List.forall_mem_append.2 ⟨inside, ?_⟩⟩
    simp [hc]
  | exprStatement _ hs => exact last _ hs
  | @letStatement start assign semicolon _ _ u v _ _ _ _ hs =>
    have whole : start :: (u ++ assign :: (v ++ [semicolon])) = start :: (u ++ assign :: v) ++ [semicolon] := by simp
    rw [whole]
    exact last _ hs
  | noStatement => simp [Phrase.Ends]
  | @statements _ _ u v hd _ ihs ihss =>
    intro tok last
    rw [List.getLast?_append] at last
    cases behind : v.getLast? with
    | none => rw [behind, Option.none_or] at last; exact ihs tok last
    | some tok' => rw [behind, Option.some_or] at last; exact ihss tok (behind.trans last)

theorem FirmOperand.no_semicolon (h : FirmOperand w) : ∀ tok ∈ w, tok.kind ≠ .semicolon := by
  induction h with
  | nothing => simp
  | prefixed hop _ ih =>
    have all : ∀ pair ∈ prefixOperators, pair.1 ≠ .semicolon := by decide
    exact List.forall_mem_cons.2 ⟨all _ hop, ih⟩
  | opened ho => simp [ho]
  | elements ho hu hv htrailing =>
    -- with the closing parenthesis behind it the word is a phrase
    obtain ⟨t, ht⟩ := Derives.parenthesized ho hu hv ⟨htrailing, (rfl : ({ kind := .rParen } : Token).kind = _)⟩
    exact fun tok hm => ht.ends tok (List.mem_append_left [_] hm)

theorem FirmExpr.no_semicolon (h : FirmExpr w) : ∀ tok ∈ w, tok.kind ≠ .semicolon := by
  cases h with
  | whole whole => exact whole.ends
  | operand operand => exact operand.no_semicolon

theorem FirmStatement.no_semicolon (h : FirmStatement w) : ∀ tok ∈ w, tok.kind ≠ .semicolon := by
  cases h with
  | value firm => exact firm.no_semicolon
  | keyword hstart => simp [hstart]
  | bound hstart hn => exact List.forall_mem_cons.2 ⟨by rw [hstart]; decide, hn.ends⟩
  | defined hstart hn ha firm =>
    have behind := List.forall_mem_cons.2 ⟨by rw [ha]; decide, firm.no_semicolon⟩
    exact List.forall_mem_cons.2 ⟨by rw [hstart]; decide, List.forall_mem_append.2 ⟨hn.ends, behind⟩⟩

/-! ## Rules give up behind firm words -/

theorem FirmOperand.of_nil (h : w = []) : FirmOperand w := h ▸ .nothing

theorem separated_built (h : Built inner) : Built (separated (tag .comma) inner) :=
  (h.pair ((Built.tag .comma).preceded h).many0).map _

theorem tuple_givesUp (built : Built inner) (sound : Sound inner (Reads .or)) : GivesUp (tuple inner) FirmOperand := by
  have element : Sound (preceded (tag .comma) inner) ElementRead := (tag_sound _).preceded sound
  have separated : Sound (separated (tag .comma) inner) ElementsRead := by
    refine (sound.pair element.many0).map ?_
    rintro w ⟨first, others⟩ ⟨u, v, rfl, hfirst, hothers⟩
    exact ⟨first, others, u, v, rfl, rfl, hfirst, hothers⟩
  have elements_built := ((separated_built built).pair (Built.tag .comma).opt).opt
  -- elements are left out or whole, and then the closing parenthesis is missing
  have closing := GivesUp.pair (R := fun w => ∀ opening : Token, opening.kind = .lParen → FirmOperand (opening :: w))
    elements_built (opt_givesUp _) (separated.pair (tag_sound .comma).opt).opt (tag_givesUp .rParen) ?_
  · refine (GivesUp.pair (.tag _) ((tag_givesUp _).mono fun _ => .of_nil) (tag_sound .lParen) closing ?_).map _
    rintro _ v opening ⟨rfl, ho⟩ firm
    exact firm opening ho
  · rintro u _ found inside rfl opening ho
    rcases inside with ⟨_, rfl⟩ | ⟨⟨es, comma⟩, _, _, t, rfl, ⟨first, others, u, v, _, rfl, hfirst, hothers⟩, hcomma⟩
    · exact .opened ho
    · have htrailing : t = [] ∨ ∃ comma : Token, comma.kind = .comma ∧ t = [comma] := by
        rcases hcomma with ⟨_, rfl⟩ | ⟨tok, _, rfl, hk⟩
        · exact .inl rfl
        · exact .inr ⟨tok, hk, rfl⟩
      rw [List.append_nil]
      exact .elements ho hfirst.derives (elements_derives hothers).1 htrailing

theorem name_givesUp : GivesUp name (· = []) := by
  refine alt_givesUp (by simp) ⟨?_, ?_⟩ <;> exact (tag_givesUp _).map _

theorem primary_givesUp (built : Built inner) (sound : Sound inner (Reads .or)) :
    GivesUp (primary inner) FirmOperand := by
  intro i e inside failed mismatch
  obtain ⟨all, r, hr, e', error, missed, same⟩ := alt_error (by simp) failed mismatch
  have nothing {α : Type} {r : Rule α} {e : Error} (h : GivesUp r (· = [])) (error : r i = .error e)
      (missed : e.isMismatch = true) := (h.mono fun _ => FirmOperand.of_nil) inside error missed
  obtain ⟨_, failedName, missedName, _⟩ := all (map name .name) (by simp)
  have noName := map_error failedName
  obtain ⟨_, failedIdent, missedIdent, _⟩ := (alt_error (by simp) noName missedName).1 _ (.head _)
  have noIdent := map_error failedIdent
  rw [← same]
  simp only [List.mem_cons, List.not_mem_nil, or_false] at hr
  rcases hr with rfl | rfl | rfl | rfl | rfl | rfl | rfl | rfl | rfl
  · exact nothing ((oneOf_givesUp _).map _) error missed
  · exact nothing ((tag_givesUp _).unimplemented _) error missed
  · exact nothing ((tag_givesUp _).unimplemented _) error missed
  · exact nothing ((oneOf_givesUp _).unimplemented _) error missed
  · exact nothing ((tag_givesUp _).unimplemented _) error missed
  · simp only [unimplemented, terminated, Rule.map, pair, noIdent] at error
    cases error
    exact nothing (tag_givesUp _) noIdent missedIdent
  · simp only [path, Rule.map, pair, noName] at error
    cases error
    exact nothing name_givesUp noName missedName
  · exact nothing (name_givesUp.map _) error missed
  · exact tuple_givesUp built sound inside error missed

theorem unary_givesUp (built : Built inner) (sound : Sound inner (Reads .or)) (depth : Nat) :
    GivesUp (unary inner depth) FirmOperand := by
  induction depth with
  | zero => exact primary_givesUp built sound
  | succ depth ih =>
    refine alt_givesUp (by simp) ⟨?_, ?_⟩
    · refine (GivesUp.pair (.oneOf _) ((oneOf_givesUp _).mono fun _ => .of_nil) (oneOf_sound _) ih ?_).map _
      rintro _ w tok ⟨rfl, hk⟩ firm
      obtain ⟨⟨_, op⟩, hop, rfl⟩ := List.mem_map.1 (show tok.kind ∈ prefixOperators.map Prod.fst from hk)
      exact .prefixed hop firm
    · exact primary_givesUp built sound

theorem ruleAt_givesUp (built : Built inner) (sound : Sound inner (Reads .or)) (n : Nat) :
    GivesUp (ruleAt inner n .or) FirmOperand := by
  have chain {kinds : List Token.Kind} {operand : Rule Expr} (h : GivesUp operand FirmOperand) :
      GivesUp (leftAssoc kinds operand) FirmOperand := (h.pair_total fun _ _ => many0_error).map _
  have sum : GivesUp (ruleAt inner n .sum) FirmOperand := chain (chain (unary_givesUp built sound n))
  have range : GivesUp (ruleAt inner n .range) FirmOperand := (sum.pair_total fun _ _ => opt_error).map _
  exact chain (chain (chain range))

theorem exprWithin_givesUp (depth : Nat) : GivesUp (exprWithin depth) FirmOperand := by
  cases depth with
  | zero =>
    have nothing : GivesUp (alt [] : Rule Expr) (· = []) := by
      intro i e _ failed _
      cases failed
      exact ⟨[], i.unread, rfl, rfl, rfl⟩
    exact (nothing.mono fun _ => .of_nil).label "expression" _
  | succ depth => exact (ruleAt_givesUp (exprWithin_built depth) (exprWithin_sound depth) _).label "expression" _

theorem expr_givesUp : GivesUp expr FirmOperand := by
  intro i e inside failed mismatch
  exact exprWithin_givesUp (i.left + 1) inside failed mismatch

theorem valued_givesUp : GivesUp (pair expr (tag .semicolon)) FirmExpr := by
  refine GivesUp.pair expr_built (expr_givesUp.mono fun _ => .operand) expr_sound (tag_givesUp _) ?_
  rintro w _ e read rfl
  rw [List.append_nil]
  exact .whole read.derives

theorem FirmStatement.of_nil (h : w = []) : FirmStatement w := .value (.operand (.of_nil h))

theorem letStatement_givesUp : GivesUp letStatement FirmStatement := by
  have bound : GivesUp (terminated name (tag .assign)) fun w => w = [] ∨ ∃ n, Derives (.name n) w := by
    refine (GivesUp.pair name_built (name_givesUp.mono fun _ => .inl) name_sound (tag_givesUp _) ?_).map _
    rintro u _ n hn rfl
    rw [List.append_nil]
    exact .inr ⟨_, hn⟩
  have head : GivesUp (pair (tag .kwLet) (terminated name (tag .assign))) FirmStatement := by
    refine GivesUp.pair (.tag _) ((tag_givesUp _).mono fun _ => .of_nil) (tag_sound _) bound ?_
    rintro _ w start ⟨rfl, hstart⟩ (rfl | ⟨n, hn⟩)
    · exact .keyword hstart
    · exact .bound hstart hn
  have head_sound := (tag_sound .kwLet).pair (name_sound.terminated (tag_sound .assign))
  have head_built := (Built.tag .kwLet).pair (name_built.terminated (Built.tag .assign))
  refine (GivesUp.pair head_built head head_sound valued_givesUp ?_).map _
  rintro _ w ⟨start, n⟩ ⟨_, _, rfl, ⟨rfl, hstart⟩, u, _, assign, rfl, hn, rfl, ha⟩ firm
  simpa using FirmStatement.defined hstart hn ha firm

theorem node_givesUp : GivesUp node FirmStatement := by
  refine alt_givesUp (by simp) ⟨?_, ?_⟩
  · exact ((tag_givesUp _).mono fun _ => FirmStatement.of_nil).unimplemented _
  · refine alt_givesUp (by simp) ⟨?_, ?_⟩
    · exact letStatement_givesUp
    · exact (valued_givesUp.mono fun _ => .value).map _

end LetStack.Grammar
