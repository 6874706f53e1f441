import LetStack.Proofs.Grammar.Derivation

/-!
`Awaits level w` says that the tokens `w` begin an expression of the level and stop right before one of its operands;
`StatementAwaits` and `ModuleAwaits` likewise. These are the token lists that an integer literal and some more tokens
complete to a module (`moduleAwaits_iff`).
-/

namespace LetStack.Grammar
open Ast

inductive Awaits : Level → List Token → Prop
  | operand : Awaits .primary []
  /-- The first operand of the level. -/
  | first {level : Level} {w : List Token} : level ≠ .primary → Awaits level.tighter w → Awaits level w
  /-- A later operand, behind an operator. -/
  | later {level : Level} {first : ExprForm} {steps : List (Operator × ExprForm)} {tok : Token} {op : Operator}
      {u v w : List Token} :
      Derives (.expr level.tighter first) u → Derives (.steps level steps) v →
      (tok.kind, op) ∈ level.operators → Awaits level.tighter w → Awaits level (u ++ (v ++ tok :: w))
  | bound {l : ExprForm} {tok : Token} {op : Operator} {u w : List Token} :
      Derives (.expr .sum l) u → (tok.kind, op) ∈ rangeOperators → Awaits .sum w →
      Awaits .range (u ++ tok :: w)
  | prefixed {tok : Token} {op : Operator} {w : List Token} :
      (tok.kind, op) ∈ prefixOperators → Awaits .prefixed w → Awaits .prefixed (tok :: w)
  | inside {opening : Token} {w : List Token} :
      opening.kind = .lParen → Awaits .or w → Awaits .primary (opening :: w)
  | element {opening comma : Token} {first : ExprForm} {others : List ExprForm} {u v w : List Token} :
      opening.kind = .lParen → Derives (.expr .or first) u → Derives (.elements others) v →
      comma.kind = .comma → Awaits .or w → Awaits .primary (opening :: (u ++ (v ++ comma :: w)))

inductive StatementAwaits : List Token → Prop
  | value {w : List Token} : Awaits .or w → StatementAwaits w
  | bound {start assign : Token} {n : NameForm} {u w : List Token} :
      start.kind = .kwLet → Derives (.name n) u → assign.kind = .assign → Awaits .or w →
      StatementAwaits (start :: (u ++ assign :: w))

/-- Whole statements, and one that breaks off. -/
inductive ModuleAwaits : List Token → Prop
  | last {forms : List StatementForm} {u w : List Token} :
      Derives (.module forms) u → StatementAwaits w → ModuleAwaits (u ++ w)

/-! ## Breaking off before a literal -/

/-- What breaks off when a phrase is cut before an operand: nothing of a name. -/
def Phrase.BreaksOff : Phrase → List Token → Prop
  | .name _, _ | .segments _, _ => False
  | .expr level _, w => Awaits level w
  | .steps level _, w => ∃ steps v tok op w', w = v ++ tok :: w' ∧ Derives (.steps level steps) v ∧
      ((tok : Token).kind, op) ∈ level.operators ∧ Awaits level.tighter w'
  | .elements _, w => ∃ others v comma w', w = v ++ comma :: w' ∧ Derives (.elements others) v ∧
      (comma : Token).kind = .comma ∧ Awaits .or w'
  | .statement _, w => StatementAwaits w
  | .module _, w => ModuleAwaits w

variable {w c u v : List Token} {tok : Token}

theorem split_append (h : u ++ v = w ++ tok :: c) :
    (∃ c', u = w ++ tok :: c') ∨ ∃ w', w = u ++ w' ∧ v = w' ++ tok :: c := by
  rcases List.append_eq_append_iff.1 h with ⟨as, rfl, hv⟩ | ⟨bs, hu, hbs⟩
  · exact .inr ⟨as, rfl, hv⟩
  · cases bs with
    | nil => exact .inr ⟨[], by simpa using hu.symm, by simpa using hbs.symm⟩
    | cons b bs =>
      obtain ⟨rfl, rfl⟩ := List.cons.inj hbs
      exact .inl ⟨bs, hu⟩

theorem split_cons {t : Token} (other : t.kind ≠ tok.kind) (h : t :: v = w ++ tok :: c) :
    ∃ w', w = t :: w' ∧ v = w' ++ tok :: c := by
  cases w with
  | nil => exact absurd (congrArg Token.kind (List.cons.inj h).1) other
  | cons s w =>
    obtain ⟨rfl, hv⟩ := List.cons.inj h
    exact ⟨w, rfl, hv⟩

theorem no_split_nil (h : [] = w ++ tok :: c) : False := by
  cases w <;> cases h

theorem no_split_single {t : Token} (other : t.kind ≠ tok.kind) (h : [t] = w ++ tok :: c) : False := by
  obtain ⟨w', _, rest⟩ := split_cons other h
  exact no_split_nil rest

/-- A phrase that has an integer literal in it breaks off before the literal. -/
theorem Derives.breaksOff {p : Phrase} {x : List Token} (h : Derives p x) (int : tok.kind = .intLit)
    (split : x = w ++ tok :: c) : p.BreaksOff w := by
  have other {t : Token} {kind : Token.Kind} (ht : t.kind = kind) (hkind : kind ≠ .intLit) :
      t.kind ≠ tok.kind := by rw [ht, int]; exact hkind
  have operators {level : Level} {t : Token} {op : Operator} (hop : (t.kind, op) ∈ level.operators) :
      t.kind ≠ tok.kind := by
    have all : ∀ pair ∈ level.operators, pair.1 ≠ .intLit := by cases level <;> decide
    rw [int]
    exact all _ hop
  induction h generalizing w c with
  | ident hk => exact no_split_single (other hk (by decide)) split
  | placeholder hk => exact no_split_single (other hk (by decide)) split
  | noSegment => exact no_split_nil split
  | segment hdot _ _ ihn ihs =>
    obtain ⟨w, rfl, tail⟩ := split_cons (other hdot (by decide)) split
    rcases split_append tail with ⟨c', inName⟩ | ⟨w', rfl, inRest⟩
    · exact ihn inName
    · exact ihs inRest
  | noStep => exact (no_split_nil split).elim
  | @step level t op _ _ u _ hop hu _ ihu ihv =>
    obtain ⟨w, rfl, tail⟩ := split_cons (operators hop) split
    rcases split_append tail with ⟨c', inOperand⟩ | ⟨w', rfl, inRest⟩
    · exact ⟨[], [], t, op, w, rfl, .noStep, hop, ihu inOperand⟩
    · obtain ⟨steps, v, t', op', w, rfl, hv, hop', awaits⟩ := ihv inRest
      exact ⟨_, t :: (u ++ v), t', op', w, by simp, .step hop hu hv, hop', awaits⟩
  | @chain level _ _ _ _ hne hu _ ihu ihv =>
    rcases split_append split with ⟨c', inFirst⟩ | ⟨w', rfl, inSteps⟩
    · refine .first ?_ (ihu inFirst)
      rintro rfl
      exact hne rfl
    · obtain ⟨steps, v, t, op, w, rfl, hv, hop, awaits⟩ := ihv inSteps
      exact .later hu hv hop awaits
  | noRange _ ih => exact .first (by decide) (ih split)
  | range hop hu _ ihu ihv =>
    rcases split_append split with ⟨c', inLeft⟩ | ⟨w', rfl, behind⟩
    · exact .first (by decide) (ihu inLeft)
    · have all : ∀ pair ∈ rangeOperators, pair.1 ≠ .intLit := by decide
      obtain ⟨w, rfl, inRight⟩ := split_cons (by rw [int]; exact all _ hop) behind
      exact .bound hu hop (ihv inRight)
  | noPrefix _ ih => exact .first (by decide) (ih split)
  | prefixed hop _ ih =>
    have all : ∀ pair ∈ prefixOperators, pair.1 ≠ .intLit := by decide
    obtain ⟨w, rfl, inOperand⟩ := split_cons (by rw [int]; exact all _ hop) split
    exact .prefixed hop (ih inOperand)
  | literal =>
    cases w with
    | nil => exact .operand
    | cons t w => exact (no_split_nil (List.cons.inj split).2).elim
  | plainName _ ih => exact (ih split).elim
  | path _ _ ihn ihs =>
    rcases split_append split with ⟨c', inName⟩ | ⟨w', rfl, inRest⟩
    · exact (ihn inName).elim
    · exact (ihs inRest).elim
  | noElement => exact (no_split_nil split).elim
  | @element comma _ _ u _ hc hu _ ihu ihv =>
    obtain ⟨w, rfl, tail⟩ := split_cons (other hc (by decide)) split
    rcases split_append tail with ⟨c', inElement⟩ | ⟨w', rfl, inRest⟩
    · exact ⟨[], [], comma, w, rfl, .noElement, hc, ihu inElement⟩
    · obtain ⟨others, v, comma', w, rfl, hv, hc', awaits⟩ := ihv inRest
      exact ⟨_, comma :: (u ++ v), comma', w, by simp, .element hc hu hv, hc', awaits⟩
  | unit ho hc =>
    obtain ⟨w, rfl, tail⟩ := split_cons (other ho (by decide)) split
    exact (no_split_single (other hc (by decide)) tail).elim
  | group ho _ hc ih =>
    obtain ⟨w, rfl, tail⟩ := split_cons (other ho (by decide)) split
    rcases split_append tail with ⟨c', within⟩ | ⟨w', _, closes⟩
    · exact .inside ho (ih within)
    · exact (no_split_single (other hc (by decide)) closes).elim
  | single ho _ hcomma hc ih =>
    obtain ⟨w, rfl, tail⟩ := split_cons (other ho (by decide)) split
    rcases split_append tail with ⟨c', within⟩ | ⟨w', _, behind⟩
    · exact .inside ho (ih within)
    · obtain ⟨_, _, closes⟩ := split_cons (other hcomma (by decide)) behind
      exact (no_split_single (other hc (by decide)) closes).elim
  | several ho hu _ htrailing hc ihu ihv =>
    obtain ⟨w, rfl, tail⟩ := split_cons (other ho (by decide)) split
    simp only [List.append_assoc] at tail
    rcases split_append tail with ⟨c', inFirst⟩ | ⟨w', rfl, behind⟩
    · exact .inside ho (ihu inFirst)
    rcases split_append behind with ⟨c', inOthers⟩ | ⟨w', _, ending⟩
    · obtain ⟨others, v, comma, w, rfl, hv, hcomma, awaits⟩ := ihv inOthers
      exact .element ho hu hv hcomma awaits
    · rcases htrailing with rfl | ⟨comma, hcomma, rfl⟩
      · exact (no_split_single (other hc (by decide)) ending).elim
      · obtain ⟨_, _, closes⟩ := split_cons (other hcomma (by decide)) ending
        exact (no_split_single (other hc (by decide)) closes).elim
  | exprStatement _ hs ih =>
    rcases split_append split with ⟨c', inValue⟩ | ⟨w', _, closes⟩
    · exact .value (ih inValue)
    · exact (no_split_single (other hs (by decide)) closes).elim
  | letStatement hstart hn ha _ hs ihn ihv =>
    obtain ⟨w, rfl, tail⟩ := split_cons (other hstart (by decide)) split
    rcases split_append tail with ⟨c', inName⟩ | ⟨w', rfl, behind⟩
    · exact (ihn inName).elim
    · obtain ⟨w, rfl, value⟩ := split_cons (other ha (by decide)) behind
      rcases split_append value with ⟨c', inValue⟩ | ⟨_, _, closes⟩
      · exact .bound hstart hn ha (ihv inValue)
      · exact (no_split_single (other hs (by decide)) closes).elim
  | noStatement => exact (no_split_nil split).elim
  | statements hu _ ihu ihv =>
    rcases split_append split with ⟨c', inFirst⟩ | ⟨w', rfl, inRest⟩
    · exact .last .noStatement (ihu inFirst)
    · obtain ⟨hv, awaits⟩ := ihv inRest
      rw [← List.append_assoc]
      exact .last (.statements hu hv) awaits

/-! ## Going on with a literal -/

theorem Derives.looser {level : Level} {t : ExprForm} {w : List Token} (h : Derives (.expr level.tighter t) w) :
    Derives (.expr level t) w := by
  have chain (hne : level.operators ≠ []) : Derives (.expr level (grouped t [])) (w ++ []) := .chain hne h .noStep
  rw [List.append_nil] at chain
  cases level with
  | range => exact .noRange h
  | prefixed => exact .noPrefix h
  | primary => exact h
  | _ => exact chain (by decide)

theorem Derives.loosest {t : ExprForm} (h : Derives (.expr .prefixed t) w) : Derives (.expr .or t) w := by
  have sum : Derives (.expr .sum t) w := @looser .sum _ _ (@looser .product _ _ h)
  have comparison : Derives (.expr .comparison t) w := @looser .comparison _ _ (.noRange sum)
  exact @looser .or _ _ (@looser .and _ _ comparison)

theorem Derives.steps_append {level : Level} {ss ss' : List (Operator × ExprForm)}
    (first : Derives (.steps level ss) u) (second : Derives (.steps level ss') v) :
    Derives (.steps level (ss ++ ss')) (u ++ v) := by
  generalize hp : Phrase.steps level ss = p at first
  induction first generalizing ss with
  | noStep => cases hp; exact second
  | step hop ht _ _ ih =>
    cases hp
    rw [List.cons_append, List.cons_append, List.append_assoc]
    exact .step hop ht (ih rfl)
  | _ => cases hp

theorem Derives.elements_append {ts ts' : List ExprForm} (first : Derives (.elements ts) u)
    (second : Derives (.elements ts') v) : Derives (.elements (ts ++ ts')) (u ++ v) := by
  generalize hp : Phrase.elements ts = p at first
  induction first generalizing ts with
  | noElement => cases hp; exact second
  | element hc ht _ _ ih =>
    cases hp
    rw [List.cons_append, List.cons_append, List.append_assoc]
    exact .element hc ht (ih rfl)
  | _ => cases hp

theorem Derives.module_append {ss ss' : List StatementForm} (first : Derives (.module ss) u)
    (second : Derives (.module ss') v) : Derives (.module (ss ++ ss')) (u ++ v) := by
  generalize hp : Phrase.module ss = p at first
  induction first generalizing ss with
  | noStatement => cases hp; exact second
  | statements hs _ _ ih =>
    cases hp
    rw [List.cons_append, List.append_assoc]
    exact .statements hs (ih rfl)
  | _ => cases hp

theorem Awaits.completed {level : Level} (h : Awaits level w) (int : tok.kind = .intLit) :
    ∃ c t, Derives (.expr level t) (w ++ tok :: c) := by
  have closing : ({ kind := .rParen } : Token).kind = .rParen := rfl
  induction h with
  | operand =>
    have known : (tok.kind, LiteralKind.int) ∈ literalKinds := by rw [int]; decide
    exact ⟨[], _, .literal known⟩
  | first _ _ ih =>
    obtain ⟨c, t, ht⟩ := ih
    exact ⟨c, t, ht.looser⟩
  | @later level _ _ op _ _ _ _ hu hv hop _ ih =>
    obtain ⟨c, t, ht⟩ := ih
    have last : Derives (.steps level [(_, t)]) (_ :: (_ ++ [])) := .step hop ht .noStep
    rw [List.append_nil] at last
    have whole := Derives.chain (List.ne_nil_of_mem hop) hu (hv.steps_append last)
    simp only [List.append_assoc, List.cons_append]
    exact ⟨c, _, whole⟩
  | bound hu hop _ ih =>
    obtain ⟨c, t, ht⟩ := ih
    have whole := Derives.range hop hu ht
    simp only [List.append_assoc, List.cons_append]
    exact ⟨c, _, whole⟩
  | prefixed hop _ ih =>
    obtain ⟨c, t, ht⟩ := ih
    exact ⟨c, _, .prefixed hop ht⟩
  | inside ho _ ih =>
    obtain ⟨c, t, ht⟩ := ih
    have whole := Derives.group ho ht closing
    rw [List.append_assoc, List.cons_append] at whole
    exact ⟨_, t, whole⟩
  | @element _ _ _ others _ _ _ ho hu hv hc _ ih =>
    obtain ⟨c, t, ht⟩ := ih
    have last : Derives (.elements [t]) (_ :: (_ ++ [])) := .element hc ht .noElement
    rw [List.append_nil] at last
    have elements := hv.elements_append last
    cases split : others ++ [t] with
    | nil => simp at split
    | cons second rest =>
      rw [split] at elements
      have whole := Derives.several ho hu elements (.inl rfl) closing
      simp only [List.append_assoc, List.cons_append, List.nil_append] at whole ⊢
      exact ⟨_, _, whole⟩

theorem StatementAwaits.completed (h : StatementAwaits w) (int : tok.kind = .intLit) :
    ∃ c s, Derives (.statement s) (w ++ tok :: c) := by
  have semicolon : ({ kind := .semicolon } : Token).kind = .semicolon := rfl
  cases h with
  | value awaits =>
    obtain ⟨c, t, ht⟩ := awaits.completed int
    have whole := Derives.exprStatement ht semicolon
    rw [List.append_assoc, List.cons_append] at whole
    exact ⟨_, _, whole⟩
  | bound hstart hn ha awaits =>
    obtain ⟨c, t, ht⟩ := awaits.completed int
    have whole := Derives.letStatement hstart hn ha ht semicolon
    simp only [List.append_assoc, List.cons_append] at whole ⊢
    exact ⟨_, _, whole⟩

/-- The words that an integer literal and some more tokens complete to a module are those that break off
before an operand. -/
theorem moduleAwaits_iff :
    ModuleAwaits w ↔ ∃ literal rest forms, literal.kind = .intLit ∧ Derives (.module forms) (w ++ literal :: rest) := by
  constructor
  · rintro ⟨hu, awaits⟩
    have int : ({ kind := .intLit } : Token).kind = .intLit := rfl
    obtain ⟨c, s, hs⟩ := awaits.completed int
    have last : Derives (.module [s]) (_ ++ []) := .statements hs .noStatement
    rw [List.append_nil] at last
    have whole := hu.module_append last
    rw [← List.append_assoc] at whole
    exact ⟨_, c, _, int, whole⟩
  · rintro ⟨literal, rest, forms, int, derived⟩
    exact derived.breaksOff int rfl

end LetStack.Grammar
