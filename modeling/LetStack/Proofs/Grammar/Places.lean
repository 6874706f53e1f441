import Mathlib.Data.List.Basic
import LetStack.Grammar.Module
import LetStack.Proofs.Text.Boundary

/-!
A rule that matches moves on over the same tokens, and one that fails describes a position between the one it was
tried at and the end of input (`Placed`), by one law for each combinator. The rules of the grammar are `Built` from
tokens by combinators (`node_built`), so they fail only where a token does not match or a form has no grammar.
-/

namespace LetStack.Grammar
open Ast

/-! ## Positions -/

namespace Input

/-- A position among the tokens or right behind them. -/
def InRange (i : Input) : Prop := i.pos ≤ i.tokens.size

/-- A position over the same tokens, not before `i` and not behind the end of input. -/
structure Reaches (i j : Input) : Prop where
  tokens : j.tokens = i.tokens
  forward : i.pos ≤ j.pos
  inside : j.pos ≤ i.tokens.size

variable {i j k : Input}

theorem InRange.reaches (h : i.InRange) : i.Reaches i := ⟨rfl, Nat.le_refl _, h⟩

theorem Reaches.inRange (h : i.Reaches j) : j.InRange := by
  rw [InRange, h.tokens]
  exact h.inside

theorem Reaches.trans (hij : i.Reaches j) (hjk : j.Reaches k) : i.Reaches k where
  tokens := hjk.tokens.trans hij.tokens
  forward := Nat.le_trans hij.forward hjk.forward
  inside := hij.tokens ▸ hjk.inside

theorem reaches_advance {tok : Token} (h : i.peek? = some tok) : i.Reaches i.advance := by
  obtain ⟨inside, _⟩ := Array.getElem?_eq_some_iff.1 h
  have moved : i.advance.pos = i.pos + 1 := if_pos inside
  exact ⟨rfl, by omega, by omega⟩

end Input

/-! ## Failures -/

/-- The failure describes a position that `i` reaches and has a reason of the class `P`. -/
def Error.Ahead (P : Reason → Prop) (i : Input) (e : Error) : Prop :=
  ∃ j code reason, i.Reaches j ∧ P reason ∧ e = .here j code reason

namespace Error.Ahead

variable {P : Reason → Prop} {i j : Input}

theorem of_here (hi : i.InRange) {code : Code} {reason : Reason} (h : P reason) :
    Error.Ahead P i (.here i code reason) :=
  ⟨i, code, reason, hi.reaches, h, rfl⟩

theorem of_reaches {e : Error} (h : e.Ahead P j) (reaches : i.Reaches j) : e.Ahead P i := by
  obtain ⟨k, code, reason, further, allowed, same⟩ := h
  exact ⟨k, code, reason, reaches.trans further, allowed, same⟩

theorem furthest (mismatch : ∀ expected, P (.mismatch expected)) {a b : Error} (ha : a.Ahead P i)
    (hb : b.Ahead P i) : (a.furthest b).Ahead P i := by
  unfold Error.furthest
  split
  · exact hb
  split
  · exact ha
  · obtain ⟨j, code, reason, reaches, _, rfl⟩ := ha
    exact ⟨j, code, _, reaches, mismatch _, rfl⟩

theorem unwrapped (mismatch : ∀ expected, P (.mismatch expected)) {e : Error} (h : e.Ahead P i) :
    e.unwrapped.Ahead P i := by
  obtain ⟨j, code, reason, reaches, allowed, rfl⟩ := h
  refine ⟨j, code, reason.unwrapped, reaches, ?_, rfl⟩
  unfold Reason.unwrapped
  split
  · exact mismatch _
  · exact allowed

end Error.Ahead

namespace Rule

variable {α β : Type} {P : Reason → Prop}

/-- What a rule tried at `i` ends with: a position that `i` reaches, or a failure that describes one. -/
def Ends (P : Reason → Prop) (i : Input) : Except Error (α × Input) → Prop
  | .ok (_, j) => i.Reaches j
  | .error e => e.Ahead P i

/-- Wherever it is tried the rule moves on, or it fails ahead for a reason of the class `P`. -/
def Placed (P : Reason → Prop) (r : Rule α) : Prop := ∀ ⦃i : Input⦄, i.InRange → Ends P i (r i)

section
variable {r : Rule α} {i : Input} (h : r.Placed P) (hi : i.InRange)
include h hi

theorem Placed.ok {a : α} {j : Input} (matched : r i = .ok (a, j)) : i.Reaches j := by
  have ends := h hi
  rwa [matched] at ends

theorem Placed.error {e : Error} (failed : r i = .error e) : e.Ahead P i := by
  have ends := h hi
  rwa [failed] at ends

end

/-! ## One law for each way of putting rules together -/

section
variable (mismatch : ∀ expected, P (.mismatch expected))
include mismatch

theorem tag_placed (kind : Token.Kind) : (tag kind).Placed P := by
  intro i hi
  unfold tag
  split
  · next tok peeked =>
    split
    · exact Input.reaches_advance peeked
    · exact .of_here hi (mismatch _)
  · exact .of_here hi (mismatch _)

theorem oneOf_placed (kinds : List Token.Kind) : (oneOf kinds).Placed P := by
  intro i hi
  unfold oneOf
  split
  · next tok peeked =>
    split
    · exact Input.reaches_advance peeked
    · exact .of_here hi (mismatch _)
  · exact .of_here hi (mismatch _)

theorem firstOf_ends {rules : List (Rule α)} (h : ∀ r ∈ rules, r.Placed P) {i : Input} (hi : i.InRange)
    {best : Option Error} (hbest : ∀ e, best = some e → e.Ahead P i) :
    Ends P i (firstOf best rules i) := by
  induction rules generalizing best with
  | nil =>
    cases best with
    | none => exact .of_here hi (mismatch _)
    | some e => exact hbest e rfl
  | cons r rules ih =>
    have placed := h r (.head _)
    unfold firstOf
    split
    · next matched => exact placed.ok hi matched
    · next e failed =>
      have ahead := placed.error hi failed
      split
      · refine ih (fun s hs => h s (.tail _ hs)) ?_
        rintro e' ⟨⟩
        cases best with
        | none => exact ahead.unwrapped mismatch
        | some b => exact (hbest b rfl).furthest mismatch (ahead.unwrapped mismatch)
      · exact ahead

theorem alt_placed {rules : List (Rule α)} (h : ∀ r ∈ rules, r.Placed P) : (alt rules).Placed P :=
  fun _ hi => firstOf_ends mismatch h hi nofun

theorem Placed.label {r : Rule α} (h : r.Placed P) (what : Bytes) (code : Code) :
    (label r what code).Placed P := by
  intro i hi
  unfold Rule.label
  split
  · next matched => exact h.ok hi matched
  · next failed =>
    split
    · exact .of_here hi (mismatch _)
    · exact h.error hi failed

end

theorem Placed.map {r : Rule α} (h : r.Placed P) (f : α → β) : (map r f).Placed P := by
  intro i hi
  unfold Rule.map
  split
  · next matched => exact h.ok hi matched
  · next failed => exact h.error hi failed

variable {s : Rule β} {r : Rule α}

theorem Placed.pair (hr : r.Placed P) (hs : s.Placed P) : (pair r s).Placed P := by
  intro i hi
  unfold Rule.pair
  split
  · next failed => exact hr.error hi failed
  · next a j matched =>
    have first := hr.ok hi matched
    split
    · next failed => exact (hs.error first.inRange failed).of_reaches first
    · next matched => exact first.trans (hs.ok first.inRange matched)

theorem Placed.many0 (h : r.Placed P) : (many0 r).Placed P := by
  intro i hi
  unfold Rule.many0
  fun_induction many r i with
  | case1 i atEnd => exact hi.reaches
  | case2 i notEnd e failed mismatch => exact hi.reaches
  | case3 i notEnd e failed fatal => exact h.error hi failed
  | case4 i notEnd a j matched progress e failed ih =>
    have first := h.ok hi matched
    have ends := ih first.inRange
    rw [failed] at ends
    exact ends.of_reaches first
  | case5 i notEnd a j matched progress as k rest ih =>
    have first := h.ok hi matched
    have ends := ih first.inRange
    rw [rest] at ends
    exact first.trans ends
  | case6 i notEnd a j matched stuck => exact hi.reaches

theorem Placed.opt (h : r.Placed P) : (opt r).Placed P := by
  intro i hi
  unfold Rule.opt
  split
  · next matched => exact h.ok hi matched
  · next failed =>
    split
    · exact hi.reaches
    · exact h.error hi failed

theorem Placed.unimplemented (h : r.Placed P) {feature : Bytes} (allowed : P (.unimplemented feature)) :
    (unimplemented r feature : Rule β).Placed P := by
  intro i hi
  unfold Rule.unimplemented
  split
  · next failed => exact h.error hi failed
  · exact .of_here hi allowed

/-! ## Built rules -/

/-- Rules put together from tokens, with texts of characters and the codes of syntax errors. None asks for the end of
input or fails from outside. -/
inductive Built : {α : Type} → Rule α → Prop
  | tag (kind : Token.Kind) : Built (Rule.tag kind)
  | oneOf (kinds : List Token.Kind) : Built (Rule.oneOf kinds)
  | map {α β : Type} {r : Rule α} (f : α → β) : Built r → Built (Rule.map r f)
  | pair {α β : Type} {r : Rule α} {s : Rule β} : Built r → Built s → Built (Rule.pair r s)
  | alt {α : Type} {rules : List (Rule α)} : (∀ r ∈ rules, Built r) → Built (Rule.alt rules)
  | many0 {α : Type} {r : Rule α} : Built r → Built (Rule.many0 r)
  | opt {α : Type} {r : Rule α} : Built r → Built (Rule.opt r)
  | label {α : Type} {r : Rule α} {what : Bytes} {code : Code} :
      Utf8.Encoded what → code.family? = some "SYN" → Built r → Built (Rule.label r what code)
  | unimplemented {α β : Type} {r : Rule α} {feature : Bytes} :
      Utf8.Encoded feature → Built r → Built (Rule.unimplemented r feature : Rule β)
  /-- A rule that is chosen by the position it is tried at. -/
  | deferred {α : Type} {r : Input → Rule α} : (∀ i, Built (r i)) → Built fun i => r i i

theorem Built.choice {rules : List (Rule α)} (h : rules.Forall Built) : Built (Rule.alt rules) :=
  .alt (List.forall_iff_forall_mem.1 h)

theorem Built.preceded (hr : Built r) (hs : Built s) : Built (preceded r s) :=
  (hr.pair hs).map _

theorem Built.terminated (hr : Built r) (hs : Built s) : Built (terminated r s) :=
  (hr.pair hs).map _

/-- The reasons for which built rules fail: no match, or a form without grammar. -/
def OfRule : Reason → Prop
  | .mismatch _ | .unimplemented _ => True
  | .trailing | .foreign _ _ => False

theorem Built.placed (h : Built r) : r.Placed OfRule := by
  have mismatch : ∀ expected, OfRule (.mismatch expected) := fun _ => trivial
  induction h with
  | tag kind => exact tag_placed mismatch kind
  | oneOf kinds => exact oneOf_placed mismatch kinds
  | map f _ ih => exact ih.map f
  | pair _ _ ihr ihs => exact ihr.pair ihs
  | alt _ ih => exact alt_placed mismatch ih
  | many0 _ ih => exact ih.many0
  | opt _ ih => exact ih.opt
  | label _ _ _ ih => exact ih.label mismatch ..
  | unimplemented _ _ ih => exact ih.unimplemented trivial
  | deferred _ ih => exact fun i hi => ih i hi

end Rule

/-! ## The rules of the grammar -/

open Rule

theorem name_built : Built name := by
  refine .choice ⟨?_, ?_⟩ <;> exact (Built.tag _).map _

theorem path_built : Built path := by
  have segment : Built (preceded (tag .dot) name) := (Built.tag _).preceded name_built
  exact (name_built.pair (segment.pair segment.many0)).map _

theorem tuple_built {expr : Rule Expr} (h : Built expr) : Built (tuple expr) := by
  have separated : Built (separated (tag .comma) expr) :=
    (h.pair ((Built.tag .comma).preceded h).many0).map _
  have elements := (separated.pair (Built.tag .comma).opt).opt
  exact ((Built.tag .lParen).pair (elements.pair (Built.tag .rParen))).map _

theorem primary_built {expr : Rule Expr} (h : Built expr) : Built (primary expr) := by
  refine .choice ⟨?_, ?_, ?_, ?_, ?_, ?_, ?_, ?_, ?_⟩
  · exact (Built.oneOf _).map _
  · exact (Built.tag _).unimplemented (Utf8.encoded_ofString _)
  · exact (Built.tag _).unimplemented (Utf8.encoded_ofString _)
  · exact (Built.oneOf _).unimplemented (Utf8.encoded_ofString _)
  · exact (Built.tag _).unimplemented (Utf8.encoded_ofString _)
  · exact ((Built.tag _).terminated (Built.tag _)).unimplemented (Utf8.encoded_ofString _)
  · exact path_built
  · exact name_built.map _
  · exact tuple_built h

theorem unary_built {expr : Rule Expr} (h : Built expr) (depth : Nat) : Built (unary expr depth) := by
  induction depth with
  | zero => exact primary_built h
  | succ depth ih =>
    refine .choice ⟨?_, ?_⟩
    · exact ((Built.oneOf _).pair ih).map _
    · exact primary_built h

theorem leftAssoc_built {operators : List Token.Kind} {operand : Rule Expr} (h : Built operand) :
    Built (leftAssoc operators operand) :=
  (h.pair ((Built.oneOf _).pair h).many0).map _

theorem rangeOf_built {operand : Rule Expr} (h : Built operand) : Built (rangeOf operand) :=
  (h.pair ((Built.oneOf _).pair h).opt).map _

theorem binary_built {operand : Rule Expr} (h : Built operand) : Built (binary operand) := by
  refine leftAssoc_built (leftAssoc_built (leftAssoc_built (rangeOf_built ?_)))
  exact leftAssoc_built (leftAssoc_built h)

theorem exprWithin_built (depth : Nat) : Built (exprWithin depth) := by
  induction depth with
  | zero => exact (@Built.choice _ [] trivial).label (Utf8.encoded_ofString _) (by decide)
  | succ depth ih => exact (binary_built (unary_built ih _)).label (Utf8.encoded_ofString _) (by decide)

theorem expr_built : Built expr :=
  @Built.deferred _ (fun i => exprWithin (i.left + 1)) fun i => exprWithin_built (i.left + 1)

theorem node_built : Built node := by
  have bound := (Built.tag .kwLet).pair (name_built.terminated (Built.tag .assign))
  have valued := expr_built.pair (Built.tag .semicolon)
  refine .choice ⟨?_, ?_⟩
  · exact (Built.tag _).unimplemented (Utf8.encoded_ofString _)
  · refine .choice ⟨?_, ?_⟩
    · exact (bound.pair valued).map _
    · exact valued.map _

end LetStack.Grammar
