import LetStack.Grammar.Module
import LetStack.Proofs.Ast.Form

/-!
The grammar of modules as rules of derivation over token lists. `Derives phrase word` says that the tokens `word` are
a phrase, which carries the form that its derivation gives. There are no positions and no order of alternatives.

```
module     = statement*
statement  = 'let' name '=' or ';' | or ';'
or         = and ('||' and)*
and        = comparison ('&&' comparison)*
comparison = range (('==' | '!=' | '<' | '<=' | '>' | '>=') range)*
range      = sum (('..' | '..=') sum)?
sum        = product (('+' | '-') product)*
product    = prefixed (('*' | '/' | '%') prefixed)*
prefixed   = ('-' | '!') prefixed | primary
primary    = literal | name | name ('.' name)+
           | '(' ')' | '(' or ')' | '(' or ',' ')' | '(' or (',' or)+ ','? ')'
```
-/

namespace LetStack.Grammar
open Ast

/-- The levels of expressions, from loose to tight. -/
inductive Level where
  | or | and | comparison | range | sum | product | prefixed | primary
  deriving DecidableEq, Repr

namespace Level

/-- The operators of a level whose operands are repeated, each with its token. -/
def operators : Level → List (Token.Kind × Operator)
  | or => [(.orOr, .or)]
  | and => [(.andAnd, .and)]
  | comparison =>
    [(.lt, .lt), (.gt, .gt), (.eqEq, .eq), (.bangEq, .ne), (.ltEq, .le), (.gtEq, .ge)]
  | sum => [(.plus, .add), (.minus, .sub)]
  | product => [(.percent, .mod), (.star, .mul), (.slash, .div)]
  | range | prefixed | primary => []

def kinds (level : Level) : List Token.Kind := level.operators.map Prod.fst

/-- The level of the operands. -/
def tighter : Level → Level
  | or => and
  | and => comparison
  | comparison => range
  | range => sum
  | sum => product
  | product => prefixed
  | prefixed | primary => primary

end Level

/-- The operators of ranges, which do not chain. -/
def rangeOperators : List (Token.Kind × Operator) := [(.dotDot, .range), (.dotDotEq, .rangeInclusive)]

def prefixOperators : List (Token.Kind × Operator) := [(.minus, .neg), (.bang, .not)]

def literalKinds : List (Token.Kind × LiteralKind) :=
  [(.charLit, .char), (.stringLit, .string), (.intLit, .int), (.decimalLit, .decimal),
   (.exponentLit, .exponent), (.boolLit, .bool)]

/-- Operands grouped from the left. -/
def grouped (first : ExprForm) (steps : List (Operator × ExprForm)) : ExprForm :=
  steps.foldl (fun left step => .binary step.1 left step.2) first

/-- What tokens can be, with the form they then have. -/
inductive Phrase where
  | name (form : NameForm)
  /-- `('.' name)*` -/
  | segments (forms : List NameForm)
  | expr (level : Level) (form : ExprForm)
  /-- `(op operand)*` with the operators of a level. -/
  | steps (level : Level) (steps : List (Operator × ExprForm))
  /-- `(',' or)*` -/
  | elements (forms : List ExprForm)
  | statement (form : StatementForm)
  | module (forms : List StatementForm)

inductive Derives : Phrase → List Token → Prop
  | ident {tok : Token} : tok.kind = .ident → Derives (.name (.ident tok.text)) [tok]
  | placeholder {tok : Token} : tok.kind = .placeholder → Derives (.name .placeholder) [tok]
  | noSegment : Derives (.segments []) []
  | segment {dot : Token} {n : NameForm} {ns : List NameForm} {u v : List Token} :
      dot.kind = .dot → Derives (.name n) u → Derives (.segments ns) v →
      Derives (.segments (n :: ns)) (dot :: (u ++ v))
  | noStep {level : Level} : Derives (.steps level []) []
  | step {level : Level} {tok : Token} {op : Operator} {t : ExprForm}
      {steps : List (Operator × ExprForm)} {u v : List Token} :
      (tok.kind, op) ∈ level.operators → Derives (.expr level.tighter t) u →
      Derives (.steps level steps) v → Derives (.steps level ((op, t) :: steps)) (tok :: (u ++ v))
  | chain {level : Level} {first : ExprForm} {steps : List (Operator × ExprForm)}
      {u v : List Token} :
      level.operators ≠ [] → Derives (.expr level.tighter first) u →
      Derives (.steps level steps) v → Derives (.expr level (grouped first steps)) (u ++ v)
  | noRange {t : ExprForm} {w : List Token} : Derives (.expr .sum t) w → Derives (.expr .range t) w
  | range {tok : Token} {op : Operator} {l r : ExprForm} {u v : List Token} :
      (tok.kind, op) ∈ rangeOperators → Derives (.expr .sum l) u → Derives (.expr .sum r) v →
      Derives (.expr .range (.binary op l r)) (u ++ tok :: v)
  | noPrefix {t : ExprForm} {w : List Token} :
      Derives (.expr .primary t) w → Derives (.expr .prefixed t) w
  | prefixed {tok : Token} {op : Operator} {t : ExprForm} {w : List Token} :
      (tok.kind, op) ∈ prefixOperators → Derives (.expr .prefixed t) w →
      Derives (.expr .prefixed (.unary op t)) (tok :: w)
  | literal {tok : Token} {kind : LiteralKind} :
      (tok.kind, kind) ∈ literalKinds → Derives (.expr .primary (.literal kind tok.text)) [tok]
  | plainName {n : NameForm} {w : List Token} :
      Derives (.name n) w → Derives (.expr .primary (.name n)) w
  | path {n second : NameForm} {others : List NameForm} {u v : List Token} :
      Derives (.name n) u → Derives (.segments (second :: others)) v →
      Derives (.expr .primary (.path (n :: second :: others))) (u ++ v)
  | noElement : Derives (.elements []) []
  | element {comma : Token} {t : ExprForm} {ts : List ExprForm} {u v : List Token} :
      comma.kind = .comma → Derives (.expr .or t) u → Derives (.elements ts) v →
      Derives (.elements (t :: ts)) (comma :: (u ++ v))
  | unit {opening closing : Token} :
      opening.kind = .lParen → closing.kind = .rParen →
      Derives (.expr .primary (.tuple [])) [opening, closing]
  /-- Parentheses around one expression leave no mark. -/
  | group {opening closing : Token} {t : ExprForm} {w : List Token} :
      opening.kind = .lParen → Derives (.expr .or t) w → closing.kind = .rParen →
      Derives (.expr .primary t) (opening :: (w ++ [closing]))
  | single {opening comma closing : Token} {t : ExprForm} {w : List Token} :
      opening.kind = .lParen → Derives (.expr .or t) w → comma.kind = .comma →
      closing.kind = .rParen →
      Derives (.expr .primary (.tuple [t])) (opening :: (w ++ [comma, closing]))
  | several {opening closing : Token} {first second : ExprForm} {others : List ExprForm}
      {u v trailing : List Token} :
      opening.kind = .lParen → Derives (.expr .or first) u →
      Derives (.elements (second :: others)) v →
      (trailing = [] ∨ ∃ comma : Token, comma.kind = .comma ∧ trailing = [comma]) →
      closing.kind = .rParen →
      Derives (.expr .primary (.tuple (first :: second :: others)))
        (opening :: (u ++ v ++ trailing ++ [closing]))
  | exprStatement {semicolon : Token} {t : ExprForm} {w : List Token} :
      Derives (.expr .or t) w → semicolon.kind = .semicolon →
      Derives (.statement (.expr t)) (w ++ [semicolon])
  | letStatement {start assign semicolon : Token} {n : NameForm} {t : ExprForm}
      {u v : List Token} :
      start.kind = .kwLet → Derives (.name n) u → assign.kind = .assign →
      Derives (.expr .or t) v → semicolon.kind = .semicolon →
      Derives (.statement (.letIn n t)) (start :: (u ++ assign :: (v ++ [semicolon])))
  | noStatement : Derives (.module []) []
  | statements {s : StatementForm} {ss : List StatementForm} {u v : List Token} :
      Derives (.statement s) u → Derives (.module ss) v → Derives (.module (s :: ss)) (u ++ v)

/-! ## What derived words look like -/

/-- The kinds of tokens that start a primary expression. -/
def primaryStarts : List Token.Kind :=
  [.charLit, .stringLit, .intLit, .decimalLit, .exponentLit, .boolLit, .ident, .placeholder, .lParen]

/-- The kinds of tokens that start an expression of a level. -/
def Level.starts : Level → List Token.Kind
  | .primary => primaryStarts
  | _ => .minus :: .bang :: primaryStarts

theorem Level.starts_tighter {level : Level} {k : Token.Kind} (h : k ∈ level.tighter.starts) :
    k ∈ level.starts := by
  cases level with
  | prefixed => exact List.mem_cons_of_mem _ (List.mem_cons_of_mem _ h)
  | _ => exact h

/-- What the first token of a name or an expression is. -/
def Phrase.StartsWith : Phrase → List Token → Prop
  | .name _, w => ∃ tok ts, w = tok :: ts ∧ tok.kind ∈ [Token.Kind.ident, .placeholder]
  | .expr level _, w => ∃ tok ts, w = tok :: ts ∧ tok.kind ∈ level.starts
  | _, _ => True

theorem Derives.startsWith {p : Phrase} {w : List Token} (h : Derives p w) : p.StartsWith w := by
  induction h with
  | ident h => exact ⟨_, _, rfl, by rw [h]; decide⟩
  | placeholder h => exact ⟨_, _, rfl, by rw [h]; decide⟩
  | chain _ _ _ ih =>
    obtain ⟨tok, ts, rfl, hk⟩ := ih
    exact ⟨tok, _, rfl, Level.starts_tighter hk⟩
  | noRange _ ih => exact ih
  | range _ _ _ ih =>
    obtain ⟨tok, ts, rfl, hk⟩ := ih
    exact ⟨tok, _, rfl, hk⟩
  | noPrefix _ ih =>
    obtain ⟨tok, ts, rfl, hk⟩ := ih
    exact ⟨tok, ts, rfl, @Level.starts_tighter .prefixed _ hk⟩
  | @prefixed tok op t w hop _ _ =>
    refine ⟨tok, w, rfl, ?_⟩
    simp only [prefixOperators, List.mem_cons, Prod.mk.injEq, List.not_mem_nil, or_false] at hop
    rcases hop with ⟨hk, _⟩ | ⟨hk, _⟩ <;> rw [hk] <;> decide
  | @literal tok kind hkind =>
    refine ⟨tok, [], rfl, ?_⟩
    simp only [literalKinds, List.mem_cons, Prod.mk.injEq, List.not_mem_nil, or_false] at hkind
    rcases hkind with h | h | h | h | h | h <;> rw [h.1] <;> decide
  | plainName _ ih =>
    obtain ⟨tok, ts, rfl, hk⟩ := ih
    exact ⟨tok, ts, rfl, names_start hk⟩
  | path _ _ ih =>
    obtain ⟨tok, ts, rfl, hk⟩ := ih
    exact ⟨tok, _, rfl, names_start hk⟩
  | unit ho => exact ⟨_, _, rfl, by rw [ho]; decide⟩
  | group ho => exact ⟨_, _, rfl, by rw [ho]; decide⟩
  | single ho => exact ⟨_, _, rfl, by rw [ho]; decide⟩
  | several ho => exact ⟨_, _, rfl, by rw [ho]; decide⟩
  | _ => trivial
where
  names_start {k : Token.Kind} (h : k ∈ [Token.Kind.ident, .placeholder]) : k ∈ primaryStarts := by
    simp only [List.mem_cons, List.not_mem_nil, or_false] at h
    rcases h with rfl | rfl <;> decide

/-- Every operator takes the operands it has, and a tuple has fewer elements than a bound. -/
def Phrase.Formed (bound : Nat) : Phrase → Prop
  | .expr _ t => t.Formed bound
  | .steps _ ss => ∀ s ∈ ss, s.1.isUnary = false ∧ s.2.Formed bound
  | .elements ts => ∀ t ∈ ts, t.Formed bound
  | .statement s => s.value.Formed bound
  | .module ss => ∀ s ∈ ss, s.value.Formed bound
  | _ => True

theorem Level.operators_binary {level : Level} {k : Token.Kind} {op : Operator}
    (h : (k, op) ∈ level.operators) : op.isUnary = false := by
  have all : ∀ pair ∈ level.operators, pair.2.isUnary = false := by cases level <;> decide
  exact all _ h

theorem grouped_formed {bound : Nat} {first : ExprForm} {steps : List (Operator × ExprForm)}
    (hf : first.Formed bound) (hs : ∀ s ∈ steps, s.1.isUnary = false ∧ s.2.Formed bound) :
    (grouped first steps).Formed bound := by
  induction steps generalizing first with
  | nil => exact hf
  | cons s steps ih =>
    obtain ⟨hop, hr⟩ := hs s (List.mem_cons_self)
    exact ih ⟨hop, hf, hr⟩ fun s' hs' => hs s' (List.mem_cons_of_mem _ hs')

theorem Derives.elements_length {ts : List ExprForm} {w : List Token}
    (h : Derives (.elements ts) w) : ts.length ≤ w.length := by
  generalize hp : Phrase.elements ts = p at h
  induction h generalizing ts with
  | noElement => cases hp; exact Nat.le_refl _
  | element _ _ _ _ ih =>
    cases hp
    have := ih rfl
    simp only [List.length_cons, List.length_append]
    omega
  | _ => cases hp

theorem Derives.formed {p : Phrase} {w : List Token} (h : Derives p w) {bound : Nat}
    (hb : w.length < bound) : p.Formed bound := by
  induction h with
  | chain _ _ _ ihf ihs =>
    simp only [List.length_append] at hb
    exact grouped_formed (ihf (by omega)) (ihs (by omega))
  | noStep => intro s hs; cases hs
  | step hop _ _ iht ihs =>
    simp only [List.length_cons, List.length_append] at hb
    intro s hs
    rcases List.mem_cons.1 hs with rfl | hs
    · exact ⟨Level.operators_binary hop, iht (by omega)⟩
    · exact ihs (by omega) s hs
  | noRange _ ih => exact ih hb
  | range hop _ _ ihl ihr =>
    simp only [List.length_append, List.length_cons] at hb
    refine ⟨?_, ihl (by omega), ihr (by omega)⟩
    have all : ∀ pair ∈ rangeOperators, pair.2.isUnary = false := by decide
    exact all _ hop
  | noPrefix _ ih => exact ih hb
  | prefixed hop _ ih =>
    simp only [List.length_cons] at hb
    refine ⟨?_, ih (by omega)⟩
    have all : ∀ pair ∈ prefixOperators, pair.2.isUnary = true := by decide
    exact all _ hop
  | noElement => intro t ht; cases ht
  | element _ _ _ iht ihs =>
    simp only [List.length_cons, List.length_append] at hb
    intro t ht
    rcases List.mem_cons.1 ht with rfl | ht
    · exact iht (by omega)
    · exact ihs (by omega) t ht
  | unit => exact ⟨by simp only [List.length_cons] at hb ⊢; omega, trivial⟩
  | group _ _ _ ih =>
    simp only [List.length_cons, List.length_append] at hb
    exact ih (by omega)
  | single _ _ _ _ ih =>
    simp only [List.length_cons, List.length_append] at hb
    exact ⟨by simp only [List.length_cons, List.length_nil]; omega, ih (by omega), trivial⟩
  | several _ _ helems _ _ ihf ihs =>
    have := helems.elements_length
    simp only [List.length_cons, List.length_append] at hb this
    refine ⟨by simp only [List.length_cons]; omega, ihf (by omega), ?_⟩
    exact ExprForm.allFormed_iff.2 (ihs (by omega))
  | exprStatement _ _ ih =>
    simp only [List.length_append] at hb
    exact ih (by omega)
  | letStatement _ _ _ _ _ _ ih =>
    simp only [List.length_cons, List.length_append] at hb
    exact ih (by omega)
  | noStatement => intro s hs; cases hs
  | statements _ _ ihs ihss =>
    simp only [List.length_append] at hb
    intro s hs
    rcases List.mem_cons.1 hs with rfl | hs
    · exact ihs (by omega)
    · exact ihss (by omega) s hs
  | _ => trivial

end LetStack.Grammar
