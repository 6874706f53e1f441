import LetStack.Proofs.Grammar.Placement

/-!
The span of a statement runs from its first token to its semicolon, without the parentheses in front that only group
(`Covers`). `opensGroup` tells these from the commas up to the closing parenthesis.
-/

namespace LetStack.Token

theorem Ordered.between {first last : Token} {w : List Token} (order : Ordered w) (head : w.head? = some first)
    (tail : w.getLast? = some last) {tok : Token} (member : tok ∈ w) :
    first.span.start ≤ tok.span.start ∧ tok.span.stop ≤ last.span.stop := by
  constructor
  · obtain ⟨rest, rfl⟩ := List.head?_eq_some_iff.1 head
    rcases List.mem_cons.1 member with rfl | behind
    · exact UInt32.le_refl _
    · have apart := (List.pairwise_cons.1 order.apart).1 tok behind
      exact UInt32.le_trans (UInt32.le_of_lt (order.nonempty first List.mem_cons_self)) apart
  · obtain ⟨front, rfl⟩ := List.getLast?_eq_some_iff.1 tail
    rcases List.mem_append.1 member with before | here
    · have apart := (List.pairwise_append.1 order.apart).2.2 tok before last List.mem_cons_self
      exact UInt32.le_trans apart (UInt32.le_of_lt (order.nonempty last (by simp)))
    · cases List.mem_singleton.1 here
      exact UInt32.le_refl _

end LetStack.Token

namespace LetStack.Ast.Builder

theorem HoldsNodes.getElem? {b : Builder} {ss : List Statement} {nodes : List NodeId} (held : b.HoldsNodes ss nodes)
    {i : Nat} {id : NodeId} (found : nodes[i]? = some id) : ∃ s, ss[i]? = some s ∧ b.HoldsNode s id := by
  induction ss generalizing nodes i with
  | nil =>
    cases held
    cases found
  | cons s ss ih =>
    obtain ⟨first, rest, rfl, holds, hss⟩ := held
    cases i with
    | zero =>
      cases found
      exact ⟨s, rfl, holds⟩
    | succ i => exact ih hss found

end LetStack.Ast.Builder

namespace LetStack.Grammar
open Ast Rule Token

/-! ## Grouping parentheses -/

/-- The first comma or closing parenthesis that is not inside parentheses, of which `depth` are open. -/
def separator? : Nat → List Token → Option Token.Kind
  | _, [] => none
  | depth, tok :: rest =>
    match tok.kind, depth with
    | .lParen, depth => separator? (depth + 1) rest
    | .rParen, 0 => some .rParen
    | .rParen, depth + 1 => separator? depth rest
    | .comma, 0 => some .comma
    | _, depth => separator? depth rest

/-- The first token is a parenthesis with something in it and no comma that makes a tuple of it. -/
def opensGroup : List Token → Bool
  | opening :: next :: rest =>
    opening.kind == .lParen && next.kind != .rParen && separator? 0 (next :: rest) == some .rParen
  | _ => false

/-- The tokens from the first on that is no grouping parenthesis. -/
def dropGrouping : List Token → List Token
  | [] => []
  | tok :: rest => if opensGroup (tok :: rest) then dropGrouping rest else tok :: rest

variable {tok opening closing : Token} {w v u : List Token} {inner : Rule Expr} {ss : List Statement}

theorem dropGrouping_of_ne (h : tok.kind ≠ .lParen) (rest : List Token) : dropGrouping (tok :: rest) = tok :: rest := by
  refine if_neg ?_
  cases rest with
  | nil => exact Bool.false_ne_true
  | cons next rest => simp [opensGroup, h]

theorem dropGrouping_split (w : List Token) :
    ∃ dropped, w = dropped ++ dropGrouping w ∧ ∀ tok ∈ dropped, tok.kind = .lParen := by
  induction w with
  | nil => exact ⟨[], rfl, by simp⟩
  | cons tok rest ih =>
    rw [dropGrouping]
    split
    · next opens =>
      obtain ⟨dropped, split, all⟩ := ih
      have opening : tok.kind = .lParen := by
        cases rest with
        | nil => cases opens
        | cons next rest =>
          simp only [opensGroup, Bool.and_eq_true, beq_iff_eq] at opens
          exact opens.1.1
      exact ⟨tok :: dropped, by rw [List.cons_append, ← split], List.forall_mem_cons.2 ⟨opening, all⟩⟩
    · exact ⟨[], rfl, by simp⟩

/-- Reading on past the word changes nothing where at least `least` parentheses are open. -/
def Skips (least : Nat) (w : List Token) : Prop :=
  ∀ depth rest, least ≤ depth → separator? depth (w ++ rest) = separator? depth rest

theorem Skips.mono {m n : Nat} (h : Skips m w) (le : m ≤ n) : Skips n w :=
  fun depth rest deep => h depth rest (Nat.le_trans le deep)

theorem Skips.append {least : Nat} (hu : Skips least u) (hv : Skips least v) : Skips least (u ++ v) := by
  intro depth rest deep
  rw [List.append_assoc, hu depth _ deep, hv depth rest deep]

theorem skips_nil (least : Nat) : Skips least [] := fun _ _ _ => rfl

theorem skips_token (h : tok.kind ∉ [Token.Kind.lParen, .rParen, .comma]) : Skips 0 [tok] := by
  intro depth rest _
  rw [List.singleton_append, separator?.eq_def]
  split <;> simp_all

theorem skips_comma {comma : Token} (h : comma.kind = .comma) : Skips 1 [comma] := by
  intro depth rest deep
  obtain ⟨depth, rfl⟩ := Nat.exists_eq_succ_of_ne_zero (Nat.ne_of_gt deep)
  rw [List.singleton_append, separator?.eq_def]
  simp only [h]

theorem separator?_opening (h : opening.kind = .lParen) (depth : Nat) (rest : List Token) :
    separator? depth (opening :: rest) = separator? (depth + 1) rest := by
  rw [separator?.eq_def]
  simp only [h]

theorem separator?_closing (h : closing.kind = .rParen) (depth : Nat) (rest : List Token) :
    separator? (depth + 1) (closing :: rest) = separator? depth rest := by
  rw [separator?.eq_def]
  simp only [h]

theorem Skips.parenthesized (ho : opening.kind = .lParen) (h : Skips 1 w) (hc : closing.kind = .rParen) :
    Skips 0 (opening :: (w ++ [closing])) := by
  intro depth rest _
  have inside := h (depth + 1) (closing :: rest) (Nat.le_add_left 1 depth)
  rw [List.cons_append, List.append_assoc, separator?_opening ho, List.singleton_append, inside,
    separator?_closing hc]

theorem skips_commas (h : ∀ tok ∈ w, tok.kind = .comma) : Skips 1 w := by
  induction w with
  | nil => exact skips_nil 1
  | cons tok w ih =>
    obtain ⟨first, others⟩ := List.forall_mem_cons.1 h
    exact (skips_comma first).append (ih others)

theorem SpellsName.kind_mem {n : Name} (h : SpellsName tok n) : tok.kind ∈ [Token.Kind.ident, .placeholder] := by
  cases h with
  | ident hk => simp [hk]
  | placeholder hk => simp [hk]

theorem SpellsName.skips {n : Name} (h : SpellsName tok n) : Skips 0 [tok] := by
  have all : ∀ k ∈ [Token.Kind.ident, .placeholder], k ∉ [Token.Kind.lParen, .rParen, .comma] := by decide
  exact skips_token (all _ h.kind_mem)

theorem segments_skip {ns : List Name} (h : Repeated SpellsSegment w ns) : Skips 0 w := by
  induction ns generalizing w with
  | nil =>
    cases h
    exact skips_nil 0
  | cons n ns ih =>
    obtain ⟨_, v, rfl, ⟨dot, tok, rfl, hd, hn⟩, hns⟩ := h
    have segment : Skips 0 [dot, tok] := (skips_token (by rw [hd]; decide)).append hn.skips
    exact segment.append (ih hns)

theorem elements_skip {elements : List Element} (words : ∀ x ∈ elements, Skips 0 x.word)
    (commas : ∀ x ∈ elements, ∀ tok ∈ x.commas, tok.kind = .comma) : Skips 1 (elements.flatMap Element.tokens) := by
  induction elements with
  | nil => exact skips_nil 1
  | cons x elements ih =>
    obtain ⟨word, words⟩ := List.forall_mem_cons.1 words
    obtain ⟨front, commas⟩ := List.forall_mem_cons.1 commas
    exact ((skips_commas front).append (word.mono (Nat.zero_le 1))).append (ih words commas)

theorem Spells.skips {e : Expr} (h : Spells w e) : Skips 0 w := by
  induction h with
  | literal hk =>
    have all : ∀ pair ∈ literalKinds, pair.1 ∉ [Token.Kind.lParen, .rParen, .comma] := by decide
    exact skips_token (all _ hk)
  | name hn => exact hn.skips
  | path hn hns => exact hn.skips.append (segments_skip hns)
  | group ho _ hc ih => exact (ih.mono (Nat.zero_le 1)).parenthesized ho hc
  | tuple ho _ commas trailing _ hc ih =>
    exact ((elements_skip ih commas).append (skips_commas trailing)).parenthesized ho hc
  | unary hop _ ih =>
    have all : ∀ pair ∈ prefixOperators, pair.1 ∉ [Token.Kind.lParen, .rParen, .comma] := by decide
    exact (skips_token (all _ hop)).append ih
  | binary hop _ _ left right =>
    have all : ∀ k ∈ [Token.Kind.lParen, .rParen, .comma], binaryOperator? k = none := by decide
    have other := fun member => Option.some_ne_none _ (hop.symm.trans (all _ member))
    exact left.append ((skips_token other).append right)

theorem Spells.exists_head {e : Expr} (h : Spells w e) : ∃ tok ts, w = tok :: ts ∧ tok.kind ≠ .rParen := by
  have name {tok : Token} {n : Name} (h : SpellsName tok n) : tok.kind ≠ .rParen := by
    have all : ∀ k ∈ [Token.Kind.ident, .placeholder], k ≠ .rParen := by decide
    exact all _ h.kind_mem
  induction h with
  | literal hk =>
    have all : ∀ pair ∈ literalKinds, pair.1 ≠ .rParen := by decide
    exact ⟨_, _, rfl, all _ hk⟩
  | name hn => exact ⟨_, _, rfl, name hn⟩
  | path hn _ => exact ⟨_, _, rfl, name hn⟩
  | group ho _ _ _ => exact ⟨_, _, rfl, by rw [ho]; decide⟩
  | tuple ho _ _ _ _ _ _ => exact ⟨_, _, rfl, by rw [ho]; decide⟩
  | unary hop _ _ =>
    have all : ∀ pair ∈ prefixOperators, pair.1 ≠ .rParen := by decide
    exact ⟨_, _, rfl, all _ hop⟩
  | binary _ _ _ left _ =>
    obtain ⟨tok, ts, rfl, hk⟩ := left
    exact ⟨tok, _, rfl, hk⟩

/-! ## The token that leads -/

section
variable {opening : Token} (ho : opening.kind = .lParen) {w : List Token} {e : Expr} (h : Spells w e)
include ho h

/-- What stands behind the expression inside decides whether its parenthesis groups. -/
theorem opensGroup_iff {next : Token} (rest : List Token) (hk : next.kind ∈ [Token.Kind.rParen, .comma]) :
    opensGroup (opening :: (w ++ next :: rest)) = true ↔ next.kind = .rParen := by
  obtain ⟨first, ts, rfl, inside⟩ := h.exists_head
  have found : separator? 0 (first :: ts ++ next :: rest) = some next.kind := by
    rw [h.skips 0 _ (Nat.le_refl 0), separator?.eq_def]
    simp only [List.mem_cons, List.not_mem_nil, or_false] at hk
    rcases hk with hk | hk <;> simp only [hk]
  rw [List.cons_append] at found
  simp [opensGroup, ho, inside, found]

theorem dropGrouping_group {closing : Token} (hc : closing.kind = .rParen) (rest : List Token) :
    dropGrouping (opening :: (w ++ closing :: rest)) = dropGrouping (w ++ closing :: rest) :=
  if_pos ((opensGroup_iff ho h rest (by simp [hc])).2 hc)

theorem dropGrouping_tuple {comma : Token} (hc : comma.kind = .comma) (rest : List Token) :
    dropGrouping (opening :: (w ++ comma :: rest)) = opening :: (w ++ comma :: rest) := by
  refine if_neg fun opens => ?_
  have closes := (opensGroup_iff ho h rest (by simp [hc])).1 opens
  rw [hc] at closes
  cases closes

end

theorem dropGrouping_unit (hc : closing.kind = .rParen) (rest : List Token) :
    dropGrouping (opening :: closing :: rest) = opening :: closing :: rest :=
  if_neg (by simp [opensGroup, hc])

/-- Whatever stands behind the word, the span starts at the first token that is no grouping parenthesis. -/
def Led (w : List Token) (s : Span) : Prop :=
  Ordered w → ∀ rest, (dropGrouping (w ++ rest)).head?.map (·.span.start) = some s.start

theorem Led.extend {s t : Span} (h : Led u s) (same : Ordered (u ++ v) → t.start = s.start) : Led (u ++ v) t := by
  intro order rest
  rw [List.append_assoc, h (order.sublist (List.sublist_append_left u v)), same order]

theorem led_of_first {s : Span} (first : ∀ rest, dropGrouping (tok :: w ++ rest) = tok :: w ++ rest)
    (framed : Ordered (tok :: w) → Framed (tok :: w) s ∧ s.Encloses tok.span) : Led (tok :: w) s := by
  intro order rest
  obtain ⟨framed, encloses⟩ := framed order
  obtain ⟨other, member, start, _⟩ := framed.first
  rw [first rest]
  refine congrArg some ?_
  rcases List.mem_cons.1 member with rfl | behind
  · exact start
  · -- a token behind the first one starts behind the span
    have apart := (List.pairwise_cons.1 order.apart).1 other behind
    have after := UInt32.lt_of_lt_of_le (order.nonempty tok List.mem_cons_self) apart
    exact absurd (start ▸ encloses.start) (UInt32.not_le.2 after)

theorem Framed.join_bounds {s t : Span} (order : Ordered (u ++ v)) (hs : Framed u s) (ht : Framed v t) :
    (s.join t).start = s.start ∧ (s.join t).stop = t.stop := by
  have apart := (hs.before order ht).1
  have before := UInt32.le_trans (UInt32.le_of_lt hs.proper.nonempty) apart
  have behind := UInt32.le_trans apart (UInt32.le_of_lt ht.proper.nonempty)
  exact ⟨Span.join_start hs.proper ht.proper before, Span.join_stop hs.proper ht.proper behind⟩

theorem led_ends {opening closing : Token} {w : List Token}
    (first : ∀ rest, dropGrouping (opening :: (w ++ [closing]) ++ rest) = opening :: (w ++ [closing]) ++ rest) :
    Led (opening :: (w ++ [closing])) (opening.span.join closing.span) := by
  refine led_of_first first fun order => ⟨framed_ends order, ?_⟩
  have member : closing ∈ opening :: (w ++ [closing]) := by simp
  exact Span.join_encloses_left (framed_token order List.mem_cons_self).proper (framed_token order member).proper

theorem Spells.led {e : Expr} (h : Spells w e) : Led w e.span := by
  have name {tok : Token} {n : Name} (h : SpellsName tok n) : tok.kind ≠ .lParen := by
    have all : ∀ k ∈ [Token.Kind.ident, .placeholder], k ≠ .lParen := by decide
    exact all _ h.kind_mem
  induction h with
  | literal hk =>
    have all : ∀ pair ∈ literalKinds, pair.1 ≠ .lParen := by decide
    intro _ rest
    rw [List.singleton_append, dropGrouping_of_ne (all _ hk)]
    rfl
  | name hn =>
    intro _ rest
    rw [List.singleton_append, dropGrouping_of_ne (name hn), show (Expr.name _).span = _ from hn.span]
    rfl
  | path hn hns =>
    refine led_of_first (fun _ => dropGrouping_of_ne (name hn) _) fun order => ⟨(Spells.path hn hns).framed order, ?_⟩
    exact hn.span ▸ ((path_framed order hn hns).2 _ List.mem_cons_self).2
  | @group opening closing w e ho h hc ih =>
    intro order rest
    rw [List.cons_append, List.append_assoc, List.singleton_append, dropGrouping_group ho h hc]
    exact ih (order.sublist (sublist_between opening closing w)) (closing :: rest)
  | @tuple opening closing elements trailing ho words _ _ separated hc _ =>
    refine led_ends fun rest => ?_
    cases elements with
    | nil =>
      cases separated
      exact dropGrouping_unit hc rest
    | cons first elements =>
      obtain ⟨none, comma, more, hk, behind⟩ := separated
      have word : (first :: elements).flatMap Element.tokens ++ trailing = first.word ++ comma :: more := by
        rw [List.flatMap_cons, Element.tokens, none, List.nil_append, List.append_assoc, behind]
      rw [word, List.cons_append, List.append_assoc, List.append_assoc, List.cons_append]
      exact dropGrouping_tuple ho (words first (.head _)) hk _
  | @unary tok op w e hop he _ =>
    have all : ∀ pair ∈ prefixOperators, pair.1 ≠ .lParen := by decide
    refine led_of_first (fun _ => dropGrouping_of_ne (all _ hop) _) fun order =>
      ⟨(Spells.unary hop he).framed order, ?_⟩
    have operand := he.framed (order.sublist (List.sublist_cons_self tok w))
    exact Span.join_encloses_left (framed_token order List.mem_cons_self).proper operand.proper
  | @binary operator op u v l r _ hl hr left _ =>
    refine left.extend fun order => ?_
    have behind := order.sublist (List.sublist_append_right u (operator :: v))
    have right := (hr.framed (behind.sublist (List.sublist_cons_self _ v))).mono (List.subset_cons_self operator v)
    exact ((hl.framed (order.sublist (List.sublist_append_left u _))).join_bounds order right).1

/-! ## Statements and modules -/

theorem SpellsStatement.led {s : Statement} (h : SpellsStatement w s) : Led w s.span := by
  cases h with
  | @expr w e semicolon he _ =>
    refine he.led.extend fun order => ?_
    have value := he.framed (order.sublist (List.sublist_append_left w _))
    exact (value.join_bounds order (framed_token order (by simp))).1
  | @letIn start tok assign semicolon n w e hs _ _ _ _ =>
    have first (rest : List Token) := dropGrouping_of_ne (by rw [hs]; decide : start.kind ≠ .lParen) rest
    exact @led_ends start semicolon (tok :: assign :: w) fun _ => first _

theorem SpellsStatement.stop {s : Statement} (h : SpellsStatement w s) (order : Ordered w) :
    ∃ front semicolon, w = front ++ [semicolon] ∧ semicolon.kind = .semicolon ∧ semicolon.span.stop = s.span.stop := by
  cases h with
  | @expr w e semicolon he hsc =>
    refine ⟨w, semicolon, rfl, hsc, ?_⟩
    have value := he.framed (order.sublist (List.sublist_append_left w _))
    exact (value.join_bounds order (framed_token order (by simp))).2.symm
  | @letIn start tok assign semicolon n w e hs hn ha he hsc =>
    refine ⟨start :: tok :: assign :: w, semicolon, rfl, hsc, ?_⟩
    have ends : ([start] ++ [semicolon]).Sublist (start :: tok :: assign :: (w ++ [semicolon])) :=
      (((List.sublist_append_right w [semicolon]).cons assign).cons tok).cons_cons start
    have outer := order.sublist ends
    exact ((framed_token outer (by simp)).join_bounds outer (framed_token outer (by simp))).2.symm

theorem SpellsStatement.last {s : Statement} (h : SpellsStatement w s) (order : Ordered w) (front : List Token) :
    (front ++ w).getLast?.map (·.span.stop) = some s.span.stop := by
  obtain ⟨_, semicolon, rfl, _, same⟩ := h.stop order
  rw [← List.append_assoc, List.getLast?_concat]
  exact congrArg some same

/-- The span of a statement: from the first token that is no grouping parenthesis to the semicolon. -/
structure Covers (word : List Token) (s : Span) : Prop where
  start : (dropGrouping word).head?.map (·.span.start) = some s.start
  stop : ∃ semicolon, word.getLast? = some semicolon ∧ semicolon.kind = .semicolon ∧ semicolon.span.stop = s.stop
  inside : ∀ tok ∈ dropGrouping word, s.start ≤ tok.span.start ∧ tok.span.stop ≤ s.stop
  outside : ∀ tok ∈ word, tok ∈ dropGrouping word ∨ tok.kind = .lParen ∧ tok.span.stop ≤ s.start

theorem SpellsStatement.covers {s : Statement} (h : SpellsStatement w s) (order : Ordered w) : Covers w s.span := by
  have start := h.led order []
  rw [List.append_nil] at start
  obtain ⟨first, head, same⟩ := Option.map_eq_some_iff.1 start
  obtain ⟨front, semicolon, word, hsc, stop⟩ := h.stop order
  have last : w.getLast? = some semicolon := by rw [word, List.getLast?_concat]
  obtain ⟨dropped, split, parens⟩ := dropGrouping_split w
  have parts : Ordered (dropped ++ dropGrouping w) := split ▸ order
  have kept : (dropGrouping w).getLast? = some semicolon := by
    have nonempty : dropGrouping w ≠ [] := List.ne_nil_of_mem (List.mem_of_head? head)
    have whole := (congrArg List.getLast? split).symm.trans last
    rwa [List.getLast?_append, Option.or_of_isSome (List.getLast?_isSome.2 nonempty)] at whole
  refine ⟨start, ⟨semicolon, last, hsc, stop⟩, fun tok member => ?_, fun tok member => ?_⟩
  · have inner := parts.sublist (List.sublist_append_right dropped (dropGrouping w))
    obtain ⟨lower, upper⟩ := inner.between head kept member
    exact ⟨same ▸ lower, stop ▸ upper⟩
  · rw [split] at member
    rcases List.mem_append.1 member with before | inside
    · refine .inr ⟨parens tok before, ?_⟩
      rw [← same]
      exact (List.pairwise_append.1 parts.apart).2.2 tok before first (List.mem_of_head? head)
    · exact .inl inside

theorem Rule.Repeated.words {α : Type} {P : List Token → α → Prop} {w : List Token} {as : List α}
    (h : Repeated P w as) :
    ∃ words : List (List Token), words.flatten = w ∧ words.length = as.length ∧
      ∀ (i : Nat) (a : α), as[i]? = some a → ∃ word, words[i]? = some word ∧ P word a := by
  induction as generalizing w with
  | nil =>
    cases h
    exact ⟨[], rfl, rfl, by simp⟩
  | cons a as ih =>
    obtain ⟨u, v, rfl, ha, has⟩ := h
    obtain ⟨words, rfl, length, all⟩ := ih has
    refine ⟨u :: words, rfl, congrArg (· + 1) length, fun i => ?_⟩
    cases i with
    | zero =>
      rintro _ ⟨⟩
      exact ⟨u, rfl, ha⟩
    | succ i => exact all i

/-- Statements that follow one another are joined to a span from the first to the last. -/
theorem foldl_join_bounds {first : Span} (order : Ordered (w ++ v)) (framed : Framed w first)
    (last : w.getLast?.map (·.span.stop) = some first.stop) (h : Repeated SpellsStatement v ss) :
    ((ss.map Statement.span).foldl Span.join first).start = first.start ∧
      (w ++ v).getLast?.map (·.span.stop) = some ((ss.map Statement.span).foldl Span.join first).stop := by
  induction ss generalizing w v first with
  | nil =>
    cases h
    rw [List.append_nil]
    exact ⟨rfl, last⟩
  | cons s ss ih =>
    obtain ⟨x, y, rfl, hs, hss⟩ := h
    rw [← List.append_assoc] at order ⊢
    have front := order.sublist (List.sublist_append_left (w ++ x) y)
    have inner := front.sublist (List.sublist_append_right w x)
    obtain ⟨start, stop⟩ := framed.join_bounds front (hs.framed inner)
    have final := (hs.last inner w).trans (congrArg some stop.symm)
    obtain ⟨lower, upper⟩ := ih order (framed.join front (hs.framed inner)) final hss
    exact ⟨lower.trans start, upper⟩

theorem Rule.Repeated.mono {α : Type} {P Q : List Token → α → Prop} (sub : ∀ w a, P w a → Q w a) {as : List α}
    (h : Repeated P w as) : Repeated Q w as := by
  induction as generalizing w with
  | nil => exact h
  | cons a as ih =>
    obtain ⟨u, v, rfl, ha, has⟩ := h
    exact ⟨u, v, rfl, sub u a ha, ih has⟩

/-- A statement with what is known of its word. -/
def ReadAs (w : List Token) (s : Statement) : Prop := Derives (.statement s.form) w ∧ SpellsStatement w s

theorem Rule.Sound.and {α : Type} {r : Rule α} {P Q : List Token → α → Prop} (hP : Sound r P) (hQ : Sound r Q) :
    Sound r fun w a => P w a ∧ Q w a := by
  intro i a j matched
  obtain ⟨w, hw, hp⟩ := hP matched
  obtain ⟨v, hv, hq⟩ := hQ matched
  cases List.append_cancel_right (hw.symm.trans hv)
  exact ⟨w, hw, hp, hq⟩

theorem parseModule_readAs {toks : List Token} (h : parseModule toks = .ok ss) : Repeated ReadAs toks ss := by
  have node : Sound node ReadAs := (node_sound.mono fun _ _ read => read.derives).and node_spells
  obtain ⟨j, matched, ended⟩ := parseModule_eq_ok.1 h
  obtain ⟨w, hw, read⟩ := node.many0 matched
  rw [unread_start, ended, List.append_nil] at hw
  rwa [hw]

theorem moduleSpan_bounds {toks : List Token} (order : Ordered toks) (nonempty : ss ≠ [])
    (h : Repeated ReadAs toks ss) :
    (dropGrouping toks).head?.map (·.span.start) = some (moduleSpan ss).start ∧
      toks.getLast?.map (·.span.stop) = some (moduleSpan ss).stop := by
  have spelled := h.mono fun _ _ read => read.2
  obtain ⟨_, _, start, stop⟩ := moduleSpan_framed order spelled nonempty
  rw [start, stop]
  obtain ⟨first, rest, rfl⟩ := List.exists_cons_of_ne_nil nonempty
  obtain ⟨u, v, rfl, ⟨_, hfirst⟩, hrest⟩ := h
  have front := order.sublist (List.sublist_append_left u v)
  obtain ⟨lower, upper⟩ := foldl_join_bounds order (hfirst.framed front) (hfirst.last front [])
    (hrest.mono fun _ _ read => read.2)
  exact ⟨(hfirst.led front v).trans (congrArg some lower.symm), upper⟩

/-- The nodes of a module that is put in, whatever the builder held, are read off words that make up the tokens. Each lies
from the first token of its word that is no grouping parenthesis to its semicolon, so that all tokens but grouping
parentheses in front are covered. -/
theorem statements_cover_tokens {src : Bytes} (short : src.length < UInt32.size) {ss : List Statement}
    (parsed : parseModule (tokenize src) = .ok ss) (b : Builder) :
    let built := buildModule b (tokenize src)
    ∃ (id : ModuleId) (m : ModuleEntry) (words : List (List Token)), built.1 = .ok id ∧ built.2.module? id = some m ∧
      words.flatten = tokenize src ∧ words.length = ss.length ∧ m.nodes.length = ss.length ∧
      (∀ (i : Nat) (id : NodeId), m.nodes[i]? = some id → ∃ n word form, built.2.node? id = some n ∧
        words[i]? = some word ∧ Derives (.statement form) word ∧ Covers word n.span) ∧
      (m.nodes ≠ [] →
        (dropGrouping (tokenize src)).head?.map (·.span.start) = some m.span.start ∧
        (tokenize src).getLast?.map (·.span.stop) = some m.span.stop) := by
  have order := tokenize_ordered short
  have read := parseModule_readAs parsed
  obtain ⟨id, m, ok, stored⟩ := buildModule_stored b parsed
  have held := stored.holds
  obtain ⟨words, whole, length, all⟩ := read.words
  refine ⟨id, m, words, ok, stored.found, whole, length, held.length, fun i id found => ?_, fun nonempty => ?_⟩
  · obtain ⟨s, hs, stmt, node, _⟩ := held.getElem? found
    obtain ⟨word, hword, derives, spelled⟩ := all i s hs
    have part : word.Sublist (tokenize src) :=
      whole ▸ List.sublist_flatten_of_mem (List.mem_of_getElem? hword)
    exact ⟨_, word, s.form, node, hword, derives, spelled.covers (order.sublist part)⟩
  · have some : ss ≠ [] := by
      rintro rfl
      exact nonempty held
    rw [stored.span]
    exact moduleSpan_bounds order some read

/-- `((a)+1);` and, on the next line, `(b,c);`. -/
private def groupThenTuple : Bytes :=
  [0x28, 0x28, 0x61, 0x29, 0x2B, 0x31, 0x29, 0x3B, 0x0A, 0x28, 0x62, 0x2C, 0x63, 0x29, 0x3B]

theorem group_then_tuple_is_covered :
    let built := buildModule {} (tokenize groupThenTuple)
    ∃ (id : ModuleId) (m : ModuleEntry) (words : List (List Token)), built.1 = .ok id ∧ built.2.module? id = some m ∧
      words.flatten = tokenize groupThenTuple ∧ m.nodes.length = 2 ∧
      (∀ (i : Nat) (id : NodeId), m.nodes[i]? = some id → ∃ n word, built.2.node? id = some n ∧
        words[i]? = some word ∧ Covers word n.span) ∧
      m.span.start = 2 ∧ m.span.stop = 15 := by
  have two : (parseModule (tokenize groupThenTuple)).toOption.map List.length = some 2 := by decide +kernel
  have first : (dropGrouping (tokenize groupThenTuple)).head?.map (·.span.start) = some 2 := by decide +kernel
  have last : (tokenize groupThenTuple).getLast?.map (·.span.stop) = some 15 := by decide +kernel
  cases parsed : parseModule (tokenize groupThenTuple) with
  | error failure =>
    rw [parsed] at two
    cases two
  | ok ss =>
    rw [parsed] at two
    obtain ⟨id, m, words, ok, found, whole, _, length, nodes, bounds⟩ :=
      statements_cover_tokens (by decide) parsed {}
    have count : m.nodes.length = 2 := length.trans (Option.some.inj two)
    obtain ⟨start, stop⟩ := bounds (List.ne_nil_of_length_pos (by rw [count]; decide))
    refine ⟨id, m, words, ok, found, whole, count, fun i id hid => ?_, ?_, ?_⟩
    · obtain ⟨n, word, _, node, hword, _, covers⟩ := nodes i id hid
      exact ⟨n, word, node, hword, covers⟩
    · exact Option.some.inj (start.symm.trans first)
    · exact Option.some.inj (stop.symm.trans last)

/-- The parenthesis that starts `(1);` is no part of its span. -/
theorem grouped_statement_starts_inside :
    ∃ ss first, parseModule (tokenize [0x28, 0x31, 0x29, 0x3B]) = .ok ss ∧
      (tokenize [0x28, 0x31, 0x29, 0x3B]).head? = some first ∧ first.span.start = 0 ∧
      ss.map (·.span.start) = [1] := by
  have starts : (parseModule (tokenize [0x28, 0x31, 0x29, 0x3B])).toOption.map (·.map (·.span.start)) = some [1] := by
    decide +kernel
  have first : (tokenize [0x28, 0x31, 0x29, 0x3B]).head?.map (·.span.start) = some 0 := by decide +kernel
  obtain ⟨tok, head, start⟩ := Option.map_eq_some_iff.1 first
  cases parsed : parseModule (tokenize [0x28, 0x31, 0x29, 0x3B]) with
  | error failure =>
    rw [parsed] at starts
    cases starts
  | ok ss =>
    rw [parsed] at starts
    exact ⟨ss, tok, rfl, head, start, Option.some.inj starts⟩

end LetStack.Grammar
