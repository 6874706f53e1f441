import LetStack.Proofs.Ast.Form
import LetStack.Proofs.Grammar.Spelling
import LetStack.Proofs.Token.Order

/-!
The span of every part of a parsed tree runs from the start of one of its tokens to the end of another and has the
line of the first (`Framed`), and it encloses the spans of the operands (`Spells.operand`). `Span.join` needs only
that tokens follow one another.
-/

namespace LetStack.Span

/-! ## Joins -/

/-- Not empty, and as long as it says. -/
structure Proper (s : Span) : Prop where
  nonempty : s.start < s.stop
  length : s.length = s.stop - s.start

/-- The second span lies inside the first and starts on no line before it. -/
structure Encloses (s t : Span) : Prop where
  start : s.start ≤ t.start
  stop : t.stop ≤ s.stop
  line : s.line ≤ t.line

theorem Encloses.refl (s : Span) : s.Encloses s := ⟨UInt32.le_refl _, UInt32.le_refl _, UInt32.le_refl _⟩

variable {s : Span}

theorem Encloses.trans {r t : Span} (hrs : r.Encloses s) (hst : s.Encloses t) : r.Encloses t where
  start := UInt32.le_trans hrs.start hst.start
  stop := UInt32.le_trans hst.stop hrs.stop
  line := UInt32.le_trans hrs.line hst.line

section
variable {s t : Span} (hs : s.Proper) (ht : t.Proper)
include hs ht

theorem join_eq :
    s.join t =
      let start := if s.start ≤ t.start then s.start else t.start
      let stop := if s.stop ≤ t.stop then t.stop else s.stop
      { start, stop, line := if s.line ≤ t.line then s.line else t.line
        column := min s.column t.column, length := stop - start } := by
  have left : s.isEmpty = false := decide_eq_false (UInt32.lt_asymm hs.nonempty)
  have right : t.isEmpty = false := decide_eq_false (UInt32.lt_asymm ht.nonempty)
  simp only [join, left, right, Bool.false_eq_true, if_false]
  rfl

theorem join_proper : (s.join t).Proper := by
  have := hs.nonempty
  have := ht.nonempty
  rw [join_eq hs ht]
  exact ⟨by grind, rfl⟩

theorem join_encloses_left : (s.join t).Encloses s := by
  rw [join_eq hs ht]
  exact ⟨by grind, by grind, by grind⟩

theorem join_encloses_right : (s.join t).Encloses t := by
  rw [join_eq hs ht]
  exact ⟨by grind, by grind, by grind⟩

theorem join_start (before : s.start ≤ t.start) : (s.join t).start = s.start := by
  rw [join_eq hs ht]
  exact if_pos before

theorem join_line (before : s.line ≤ t.line) : (s.join t).line = s.line := by
  rw [join_eq hs ht]
  exact if_pos before

theorem join_stop (behind : s.stop ≤ t.stop) : (s.join t).stop = t.stop := by
  rw [join_eq hs ht]
  exact if_pos behind

theorem join_stop_of_le (inside : t.stop ≤ s.stop) : (s.join t).stop = s.stop := by
  rw [join_eq hs ht]
  grind

end

theorem foldl_join_encloses {ts : List Span} (hs : s.Proper) (all : ∀ t ∈ ts, t.Proper) :
    (ts.foldl join s).Encloses s ∧ ∀ t ∈ ts, (ts.foldl join s).Encloses t := by
  induction ts generalizing s with
  | nil => exact ⟨.refl s, by simp⟩
  | cons t ts ih =>
    obtain ⟨ht, all⟩ := List.forall_mem_cons.1 all
    obtain ⟨outer, rest⟩ := ih (join_proper hs ht) all
    refine ⟨outer.trans (join_encloses_left hs ht), List.forall_mem_cons.2 ⟨?_, rest⟩⟩
    exact outer.trans (join_encloses_right hs ht)

/-- Joining what is enclosed already changes no bounds and no line. -/
theorem foldl_join_of_encloses {ts : List Span} (hs : s.Proper) (all : ∀ t ∈ ts, t.Proper ∧ s.Encloses t) :
    (ts.foldl join s).Proper ∧ (ts.foldl join s).start = s.start ∧ (ts.foldl join s).stop = s.stop ∧
      (ts.foldl join s).line = s.line := by
  induction ts generalizing s with
  | nil => exact ⟨hs, rfl, rfl, rfl⟩
  | cons t ts ih =>
    obtain ⟨⟨ht, inside⟩, all⟩ := List.forall_mem_cons.1 all
    have outer := join_encloses_left hs ht
    obtain ⟨proper, start, stop, line⟩ := ih (join_proper hs ht) fun r hr => ⟨(all r hr).1, outer.trans (all r hr).2⟩
    refine ⟨proper, start.trans ?_, stop.trans ?_, line.trans ?_⟩
    · exact join_start hs ht inside.start
    · exact join_stop_of_le hs ht inside.stop
    · exact join_line hs ht inside.line

end LetStack.Span

namespace LetStack.Grammar
open Ast Rule Token

/-! ## Spans and words -/

/-- The span runs from the start of a token of the word to the end of another, on the line of the first. -/
structure Framed (w : List Token) (s : Span) : Prop where
  proper : s.Proper
  first : ∃ tok ∈ w, tok.span.start = s.start ∧ tok.span.line = s.line
  last : ∃ tok ∈ w, tok.span.stop = s.stop

variable {w toks : List Token} {tok : Token} {n : Name}

theorem Framed.mono {u : List Token} {s : Span} (h : Framed u s) (sub : u ⊆ w) : Framed w s := by
  obtain ⟨proper, ⟨first, hf, start⟩, last, hl, stop⟩ := h
  exact ⟨proper, ⟨first, sub hf, start⟩, last, sub hl, stop⟩

theorem framed_token (order : Ordered w) (member : tok ∈ w) :
    Framed [tok] tok.span where
  proper := ⟨order.nonempty tok member, order.length tok member⟩
  first := ⟨tok, List.mem_cons_self, rfl, rfl⟩
  last := ⟨tok, List.mem_cons_self, rfl⟩

section
variable {u v : List Token} {s t : Span} (order : Ordered (u ++ v)) (hs : Framed u s) (ht : Framed v t)
include order hs ht

theorem Framed.before : s.stop ≤ t.start ∧ s.line ≤ t.line := by
  obtain ⟨_, ⟨first, inFirst, _, line⟩, last, inLast, stop⟩ := hs
  obtain ⟨_, ⟨next, inNext, start, nextLine⟩, _⟩ := ht
  have apart := (List.pairwise_append.1 order.apart).2.2 last inLast next inNext
  have lines := (List.pairwise_append.1 order.lines).2.2 first inFirst next inNext
  exact ⟨stop ▸ start ▸ apart, line ▸ nextLine ▸ lines⟩

theorem Framed.join : Framed (u ++ v) (s.join t) := by
  obtain ⟨apart, lines⟩ := hs.before order ht
  have before : s.start ≤ t.start := UInt32.le_trans (UInt32.le_of_lt hs.proper.nonempty) apart
  have behind : s.stop ≤ t.stop := UInt32.le_trans apart (UInt32.le_of_lt ht.proper.nonempty)
  obtain ⟨first, inFirst, start, line⟩ := hs.first
  obtain ⟨last, inLast, stop⟩ := ht.last
  refine ⟨Span.join_proper hs.proper ht.proper, ⟨first, List.mem_append_left _ inFirst, ?_, ?_⟩,
    last, List.mem_append_right _ inLast, ?_⟩
  · rw [start, Span.join_start hs.proper ht.proper before]
  · rw [line, Span.join_line hs.proper ht.proper lines]
  · rw [stop, Span.join_stop hs.proper ht.proper behind]

end

theorem sublist_between (opening closing : Token) (w : List Token) : w.Sublist (opening :: (w ++ [closing])) :=
  (List.sublist_append_left w [closing]).cons opening

theorem framed_ends {opening closing : Token} {w : List Token} (order : Ordered (opening :: (w ++ [closing]))) :
    Framed (opening :: (w ++ [closing])) (opening.span.join closing.span) := by
  have ends : ([opening] ++ [closing]).Sublist (opening :: (w ++ [closing])) :=
    (List.sublist_append_right w [closing]).cons_cons opening
  have outer := order.sublist ends
  exact ((framed_token outer (by simp)).join outer (framed_token outer (by simp))).mono ends.subset

section
variable {α : Type} {P : List Token → α → Prop} {place : α → Span}
  (frames : ∀ ⦃w : List Token⦄ ⦃a : α⦄, P w a → Ordered w → Framed w (place a))
include frames

variable {as : List α}

theorem repeated_framed {w : List Token} (h : Repeated P w as) (order : Ordered w) : ∀ a ∈ as, Framed w (place a) := by
  induction as generalizing w with
  | nil => simp
  | cons a as ih =>
    obtain ⟨u, v, rfl, ha, has⟩ := h
    have rest := ih has (order.sublist (List.sublist_append_right u v))
    refine List.forall_mem_cons.2 ⟨?_, fun b member => (rest b member).mono (List.subset_append_right u v)⟩
    exact (frames ha (order.sublist (List.sublist_append_left u v))).mono (List.subset_append_left u v)

theorem repeated_apart {w : List Token} (h : Repeated P w as) (order : Ordered w) :
    as.Pairwise fun a b => (place a).stop ≤ (place b).start := by
  induction as generalizing w with
  | nil => exact .nil
  | cons a as ih =>
    obtain ⟨u, v, rfl, ha, has⟩ := h
    have first := frames ha (order.sublist (List.sublist_append_left u v))
    have later := order.sublist (List.sublist_append_right u v)
    refine .cons (fun b member => ?_) (ih has later)
    exact (first.before order (repeated_framed frames has later b member)).1

theorem Framed.foldl {u v : List Token} {s : Span} (order : Ordered (u ++ v)) (hs : Framed u s) (h : Repeated P v as) :
    Framed (u ++ v) ((as.map place).foldl Span.join s) := by
  induction as generalizing u v s with
  | nil =>
    cases h
    rwa [List.append_nil]
  | cons a as ih =>
    obtain ⟨x, y, rfl, ha, has⟩ := h
    have within : (u ++ x).Sublist (u ++ (x ++ y)) := (List.sublist_append_left x y).append_left u
    have next := frames ha (order.sublist ((List.sublist_append_right u x).trans within))
    rw [← List.append_assoc] at order ⊢
    exact ih order (hs.join (order.sublist (List.sublist_append_left _ y)) next) has

end

/-! ## Names and expressions -/

theorem SpellsName.span (h : SpellsName tok n) : n.span = tok.span := by
  cases h <;> rfl

theorem SpellsName.framed (h : SpellsName tok n) (order : Ordered w) (member : tok ∈ w) : Framed [tok] n.span :=
  h.span ▸ framed_token order member

theorem SpellsSegment.framed ⦃w : List Token⦄ ⦃n : Name⦄ (h : SpellsSegment w n) (order : Ordered w) :
    Framed w n.span := by
  obtain ⟨dot, tok, rfl, _, hn⟩ := h
  exact (hn.framed order (by simp)).mono (by simp)

theorem path_framed {ns : List Name} (order : Ordered (tok :: w)) (hn : SpellsName tok n)
    (hns : Repeated SpellsSegment w ns) :
    Framed (tok :: w) (Expr.path (n :: ns)).span ∧
      ∀ m ∈ n :: ns, Framed (tok :: w) m.span ∧ (Expr.path (n :: ns)).span.Encloses m.span := by
  have first := hn.framed order List.mem_cons_self
  have rest := repeated_framed SpellsSegment.framed hns (order.sublist (List.sublist_cons_self tok w))
  have proper : ∀ s ∈ ns.map Name.span, s.Proper := by
    intro s member
    obtain ⟨m, hm, rfl⟩ := List.mem_map.1 member
    exact (rest m hm).proper
  obtain ⟨whole, parts⟩ := Span.foldl_join_encloses first.proper proper
  refine ⟨Framed.foldl SpellsSegment.framed order first hns, List.forall_mem_cons.2 ⟨⟨?_, whole⟩, fun m hm => ?_⟩⟩
  · exact first.mono (by simp)
  · exact ⟨(rest m hm).mono (List.subset_cons_self tok w), parts _ (List.mem_map_of_mem hm)⟩

theorem Spells.framed {e : Expr} (h : Spells w e) (order : Ordered w) : Framed w e.span := by
  induction h with
  | literal _ => exact framed_token order List.mem_cons_self
  | name hn => exact hn.framed order List.mem_cons_self
  | path hn hns => exact (path_framed order hn hns).1
  | @group opening closing w e _ _ _ ih =>
    have inside := sublist_between opening closing w
    exact (ih (order.sublist inside)).mono inside.subset
  | tuple _ _ _ _ _ _ => exact framed_ends order
  | @unary tok op w e _ _ ih =>
    have operand := ih (order.sublist (List.sublist_cons_self tok w))
    exact (framed_token order List.mem_cons_self).join order operand
  | @binary tok op u v l r _ _ _ left right =>
    have operands : (u ++ v).Sublist (u ++ tok :: v) := (List.sublist_cons_self tok v).append_left u
    have outer := order.sublist operands
    have joined := (left (outer.sublist (List.sublist_append_left u v))).join outer
      (right (outer.sublist (List.sublist_append_right u v)))
    exact joined.mono operands.subset

theorem enclosed_between {opening closing : Token} {s : Span} (order : Ordered (opening :: (w ++ [closing])))
    (framed : Ordered w → Framed w s) : (opening.span.join closing.span).Encloses s := by
  have later := order.sublist (List.sublist_cons_self opening _)
  have inner := framed (later.sublist (List.sublist_append_left w _))
  have first := framed_token order List.mem_cons_self
  have last := framed_token later (List.mem_append_right w List.mem_cons_self)
  obtain ⟨start, line⟩ := first.before (order.sublist ((List.sublist_append_left w _).cons_cons opening)) inner
  obtain ⟨stop, _⟩ := inner.before later last
  have left := Span.join_encloses_left first.proper last.proper
  have right := Span.join_encloses_right first.proper last.proper
  refine ⟨?_, ?_, UInt32.le_trans left.line line⟩
  · exact UInt32.le_trans left.start (UInt32.le_trans (UInt32.le_of_lt first.proper.nonempty) start)
  · exact UInt32.le_trans stop (UInt32.le_trans (UInt32.le_of_lt last.proper.nonempty) right.stop)

theorem element_sublist (opening closing : Token) {elements : List Element} {x : Element} (hx : x ∈ elements)
    (trailing : List Token) : (opening :: (x.word ++ [closing])).Sublist
      (opening :: (elements.flatMap Element.tokens ++ trailing ++ [closing])) := by
  have part : x.word.Sublist (elements.flatMap Element.tokens) :=
    (List.sublist_append_right x.commas x.word).trans (List.sublist_flatten_of_mem (List.mem_map_of_mem hx))
  have inside : x.word.Sublist (elements.flatMap Element.tokens ++ trailing) :=
    part.trans (List.sublist_append_left _ trailing)
  exact (inside.append (.refl _)).cons_cons opening

theorem Spells.operand {w : List Token} {e c : Expr} (h : Spells w e) (member : c ∈ e.operands) :
    ∃ u, u.Sublist w ∧ Spells u c ∧ (Ordered w → e.span.Encloses c.span) := by
  induction h with
  | literal _ => cases member
  | name _ => cases member
  | path _ _ => cases member
  | @group opening closing w e _ _ _ ih =>
    -- the operands are those of the expression inside
    obtain ⟨u, sub, spelled, encloses⟩ := ih member
    have inside := sublist_between opening closing w
    exact ⟨u, sub.trans inside, spelled, fun order => encloses (order.sublist inside)⟩
  | @tuple opening closing elements trailing _ words _ _ _ _ =>
    obtain ⟨x, hx, rfl⟩ := List.mem_map.1 member
    have all := element_sublist opening closing hx trailing
    refine ⟨x.word, (sublist_between opening closing x.word).trans all, words x hx, fun order => ?_⟩
    exact enclosed_between (order.sublist all) ((words x hx).framed ·)
  | @unary tok op w e _ he =>
    cases List.mem_singleton.1 member
    refine ⟨w, List.sublist_cons_self tok w, he, fun order => ?_⟩
    have operand := he.framed (order.sublist (List.sublist_cons_self tok w))
    exact Span.join_encloses_right (framed_token order List.mem_cons_self).proper operand.proper
  | @binary tok op u v l r _ hl hr =>
    have left : u.Sublist (u ++ tok :: v) := List.sublist_append_left u _
    have right : v.Sublist (u ++ tok :: v) := (List.sublist_cons_self tok v).trans (List.sublist_append_right u _)
    simp only [Expr.operands, List.mem_cons, List.not_mem_nil, or_false] at member
    rcases member with rfl | rfl
    · refine ⟨u, left, hl, fun order => ?_⟩
      exact Span.join_encloses_left (hl.framed (order.sublist left)).proper (hr.framed (order.sublist right)).proper
    · refine ⟨v, right, hr, fun order => ?_⟩
      exact Span.join_encloses_right (hl.framed (order.sublist left)).proper (hr.framed (order.sublist right)).proper

theorem Spells.segment {w : List Token} {ns : List Name} (h : Spells w (.path ns)) (order : Ordered w) :
    ∀ n ∈ ns, Framed w n.span ∧ (Expr.path ns).span.Encloses n.span := by
  generalize same : Expr.path ns = e at h
  induction h with
  | path hn hns =>
    cases same
    exact (path_framed order hn hns).2
  | @group opening closing w e _ _ _ ih =>
    have inside := sublist_between opening closing w
    intro n hn
    obtain ⟨framed, encloses⟩ := ih (order.sublist inside) same n hn
    exact ⟨framed.mono inside.subset, encloses⟩
  | literal _ => cases same
  | name _ => cases same
  | tuple _ _ _ _ _ _ => cases same
  | unary _ _ _ => cases same
  | binary _ _ _ _ _ => cases same

/-! ## Statements and modules -/

theorem SpellsStatement.framed ⦃w : List Token⦄ ⦃s : Statement⦄ (h : SpellsStatement w s) (order : Ordered w) :
    Framed w s.span := by
  cases h with
  | @expr w e semicolon he _ =>
    have value := he.framed (order.sublist (List.sublist_append_left w _))
    exact value.join order (framed_token order (List.mem_append_right w List.mem_cons_self))
  | @letIn start tok assign semicolon n w e _ _ _ _ _ => exact @framed_ends start semicolon (tok :: assign :: w) order

theorem SpellsStatement.value {w : List Token} {s : Statement} (h : SpellsStatement w s) :
    ∃ u, u.Sublist w ∧ Spells u s.value ∧ (Ordered w → s.span.Encloses s.value.span) := by
  cases h with
  | @expr w e semicolon he _ =>
    refine ⟨w, List.sublist_append_left w _, he, fun order => ?_⟩
    have value := he.framed (order.sublist (List.sublist_append_left w _))
    exact Span.join_encloses_left value.proper
      (framed_token order (List.mem_append_right w List.mem_cons_self)).proper
  | @letIn start tok assign semicolon n w e _ _ _ he _ =>
    have behind : (w ++ [semicolon]).Sublist (tok :: assign :: (w ++ [semicolon])) :=
      (List.sublist_cons_self assign _).cons tok
    refine ⟨w, ((List.sublist_append_left w _).trans behind).cons start, he, fun order => ?_⟩
    exact enclosed_between (order.sublist (behind.cons_cons start)) he.framed

theorem moduleSpan_framed {ss : List Statement} (order : Ordered w) (h : Repeated SpellsStatement w ss)
    (nonempty : ss ≠ []) :
    Framed w (moduleSpan ss) ∧ (∀ s ∈ ss, (moduleSpan ss).Encloses s.span) ∧
      (moduleSpan ss).start = (Span.joinAll (ss.map Statement.span)).start ∧
      (moduleSpan ss).stop = (Span.joinAll (ss.map Statement.span)).stop := by
  obtain ⟨first, rest, rfl⟩ := List.exists_cons_of_ne_nil nonempty
  have framed := repeated_framed SpellsStatement.framed h order
  have proper : ∀ t ∈ (first :: rest).map Statement.span, t.Proper := by
    intro t member
    obtain ⟨s, hs, rfl⟩ := List.mem_map.1 member
    exact (framed s hs).proper
  obtain ⟨u, v, rfl, hfirst, hrest⟩ := h
  -- the join of all is where it has to be, and joining each once more changes nothing
  have once := Framed.foldl SpellsStatement.framed order
    (hfirst.framed (order.sublist (List.sublist_append_left u v))) hrest
  obtain ⟨outer, inner⟩ := Span.foldl_join_encloses (proper _ List.mem_cons_self)
    fun t ht => proper t (List.mem_cons_of_mem _ ht)
  have encloses : ∀ t ∈ (first :: rest).map Statement.span,
      (Span.joinAll ((first :: rest).map Statement.span)).Encloses t :=
    List.forall_mem_cons.2 ⟨outer, inner⟩
  obtain ⟨whole, start, stop, line⟩ :=
    Span.foldl_join_of_encloses once.proper fun t ht => ⟨proper t ht, encloses t ht⟩
  refine ⟨⟨whole, ?_, ?_⟩, fun s hs => ?_, start, stop⟩
  · obtain ⟨tok, member, hstart, hline⟩ := once.first
    exact ⟨tok, member, hstart.trans start.symm, hline.trans line.symm⟩
  · obtain ⟨tok, member, hstop⟩ := once.last
    exact ⟨tok, member, hstop.trans stop.symm⟩
  · exact (Span.foldl_join_encloses once.proper proper).2 s.span (List.mem_map_of_mem hs)

/-! ## Parts of a module -/

/-- The expression is read off a part of the tokens. -/
def SpelledIn (toks : List Token) (e : Expr) : Prop := ∃ u, u.Sublist toks ∧ Spells u e

theorem SpelledIn.operand {e : Expr} (h : SpelledIn toks e) : ∀ c ∈ e.operands, SpelledIn toks c := by
  obtain ⟨w, within, spelled⟩ := h
  intro c member
  obtain ⟨u, sub, part, _⟩ := spelled.operand member
  exact ⟨u, sub.trans within, part⟩

theorem exists_statement_word {ss : List Statement} (h : Repeated SpellsStatement toks ss) :
    ∀ s ∈ ss, ∃ w, w.Sublist toks ∧ SpellsStatement w s := by
  induction ss generalizing toks with
  | nil => simp
  | cons s ss ih =>
    obtain ⟨u, v, rfl, hs, hss⟩ := h
    refine List.forall_mem_cons.2 ⟨⟨u, List.sublist_append_left u v, hs⟩, fun t member => ?_⟩
    obtain ⟨w, within, ht⟩ := ih hss t member
    exact ⟨w, within.trans (List.sublist_append_right u v), ht⟩

theorem SpellsStatement.spelledIn {s : Statement} (h : SpellsStatement w s) (within : w.Sublist toks) :
    SpelledIn toks s.value := by
  obtain ⟨u, sub, spelled, _⟩ := h.value
  exact ⟨u, sub.trans within, spelled⟩

end LetStack.Grammar
