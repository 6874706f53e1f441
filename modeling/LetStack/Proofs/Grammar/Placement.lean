import LetStack.Ast.Placement
import LetStack.Proofs.Grammar.WellFormed

/-!
`Builder.misplaced` finds no fault in a parsed module: statements follow one another, and every span starts at a token
and has its line.
-/

namespace LetStack.Grammar
open Ast Rule Token

/-! ## Checks that find nothing -/

theorem spanFault?_eq_none {what : Bytes} {s parent : Span} (proper : s.Proper) (inside : parent.Encloses s) :
    spanFault? what s parent = none := by
  unfold spanFault?
  rw [if_neg (UInt32.not_le.2 proper.nonempty), if_neg]
  rintro (before | behind)
  · exact UInt32.not_lt.2 inside.start before
  · exact UInt32.not_lt.2 inside.stop behind

theorem firstFault_eq_none {α : Type} {check : α → Except Defect (Option Bytes)} {xs : List α}
    (h : ∀ x ∈ xs, check x = .ok none) : firstFault check xs = .ok none := by
  induction xs with
  | nil => rfl
  | cons x xs ih =>
    obtain ⟨first, rest⟩ := List.forall_mem_cons.1 h
    rw [firstFault, first]
    exact ih rest

theorem exprFault_eq_none {b : Builder} {depth : Nat} {e : Expr} {id : ExprId} {w : List Token} {parent : Span}
    (held : b.Holds e id) (deep : e.height ≤ depth) (spelled : Spells w e) (order : Ordered w)
    (inside : parent.Encloses e.span) : b.exprFault depth parent id = .ok none := by
  induction depth generalizing e id w parent with
  | zero =>
    rw [e.height_eq] at deep
    cases deep
  | succ depth ih =>
    have fits (what : Bytes) := @spanFault?_eq_none what _ _ (spelled.framed order).proper inside
    -- the operands lie inside, whatever the kind of the expression
    have parts : ∀ c ∈ b.operands id, b.exprFault depth e.span c = .ok none := by
      intro c member
      obtain ⟨part, hp, holds⟩ := held.operands.exists_of_mem member
      obtain ⟨u, sub, word, encloses⟩ := spelled.operand hp
      rw [e.height_eq] at deep
      exact ih holds (Nat.le_trans (Expr.height_le_heights hp) (Nat.le_of_succ_le_succ deep)) word
        (order.sublist sub) (encloses order)
    cases e with
    | literal kind raw span =>
      obtain ⟨data, text, read, _⟩ := held
      rw [Expr.span] at fits
      simp only [Builder.exprFault, read, fits]
    | name n =>
      obtain ⟨data, entry, read, _⟩ := held
      rw [Expr.span] at fits
      simp only [Builder.exprFault, read, fits]
    | path segments =>
      obtain ⟨data, entries, read, stored, names⟩ := held
      simp only [Builder.exprFault, read, fits, Builder.payload, stored]
      refine firstFault_eq_none fun entry member => ?_
      obtain ⟨n, hn, holds⟩ := names.exists_of_mem member
      obtain ⟨framed, encloses⟩ := spelled.segment order n hn
      rw [holds.span, spanFault?_eq_none framed.proper encloses]
    | tuple elements span =>
      obtain ⟨data, ids, read, stored, _⟩ := held
      rw [Builder.operands_of_tuple read stored] at parts
      rw [Expr.span] at fits
      simp only [Builder.exprFault, read, fits, Builder.payload, stored]
      exact firstFault_eq_none parts
    | unary op operand span =>
      obtain ⟨data, right, read, stored, _⟩ := held
      have prefixed : (Tag.known op).isUnary = true := spelled.fromTokens
      rw [Builder.operands_of_operator read stored] at parts
      rw [Expr.span] at fits
      simp only [Builder.exprFault, read, fits, Builder.payload, stored]
      show firstFault _ (if (Tag.known op).isUnary then [right] else [0, right]) = _
      rw [if_pos prefixed]
      exact firstFault_eq_none parts
    | binary op l r span =>
      obtain ⟨data, left, right, read, stored, hl, hr⟩ := held
      have between : (Tag.known op).isUnary = false := spelled.fromTokens
      rw [Builder.operands_of_operator read stored, if_neg hl.ne_zero] at parts
      rw [Expr.span] at fits
      simp only [Builder.exprFault, read, fits, Builder.payload, stored]
      show firstFault _ (if (Tag.known op).isUnary then [right] else [left, right]) = _
      rw [between]
      exact firstFault_eq_none parts

theorem nodeFault_eq_none {b : Builder} {s : Statement} {id : NodeId} {w : List Token} {parent : Span}
    (held : b.HoldsNode s id) (room : s.value.height < b.depthBound) (spelled : SpellsStatement w s)
    (order : Ordered w) (inside : parent.Encloses s.span) : b.nodeFault parent id = .ok none := by
  obtain ⟨stmt, node, held⟩ := held
  obtain ⟨entry, read, same⟩ := held.stmt?_span
  obtain ⟨u, sub, word, encloses⟩ := spelled.value
  have proper := (spelled.framed order).proper
  have value := exprFault_eq_none (held.value read) (Nat.le_of_lt room) word (order.sublist sub) (encloses order)
  simp only [Builder.nodeFault, node, spanFault?_eq_none proper inside, read, same, if_true,
    spanFault?_eq_none proper (.refl s.span), value]

/-! ## Modules -/

theorem Framed.stop_le {src : Bytes} (short : src.length < UInt32.size) {s : Span} (h : Framed (tokenize src) s) :
    s.stop.toNat ≤ src.length := by
  obtain ⟨tok, member, stop⟩ := h.last
  rw [← stop]
  exact (tokenize_placed short member).inside

theorem misplaced_eq_none {b : Builder} {id : ModuleId} {m : ModuleEntry} {ss : List Statement} {src : Bytes}
    (stored : b.StoredModule ss id m) (short : src.length < UInt32.size)
    (spelled : Repeated SpellsStatement (tokenize src) ss) : b.misplaced id src = .ok none := by
  have held := stored.holds
  have span := stored.span
  unfold Builder.misplaced
  rw [stored.found]
  by_cases empty : m.nodes = []
  · exact if_pos empty
  have nonempty : ss ≠ [] := by
    rintro rfl
    exact empty held
  have order := tokenize_ordered short
  obtain ⟨framed, encloses, start, stop⟩ := moduleSpan_framed order spelled nonempty
  have inside : ({ stop := UInt32.ofNat src.length } : Span).Encloses m.span := by
    refine ⟨UInt32.zero_le, ?_, UInt32.zero_le⟩
    rw [span, UInt32.le_iff_toNat_le, UInt32.toNat_ofNat_of_lt' short]
    exact framed.stop_le short
  have nodes : ∀ n ∈ m.nodes, b.nodeFault m.span n = .ok none := by
    intro n member
    obtain ⟨s, hs, holds⟩ := held.exists_of_mem member
    obtain ⟨w, within, word⟩ := exists_statement_word spelled s hs
    exact nodeFault_eq_none holds (stored.room s hs) word (order.sublist within) (span ▸ encloses s hs)
  have union : Span.joinAll ((m.nodes.filterMap b.node?).map NodeEntry.span) =
      Span.joinAll (ss.map Statement.span) := by
    rw [held.spans]
  have agree : ¬((Span.joinAll (ss.map Statement.span)).start ≠ m.span.start ∨
      (Span.joinAll (ss.map Statement.span)).stop ≠ m.span.stop) := by
    rw [span, start, stop]
    simp
  simp only [if_neg empty, spanFault?_eq_none (span ▸ framed.proper) inside, firstFault_eq_none nodes, union]
  exact if_neg agree

/-! ## Spans of parts -/

/-- A span of the module, of one of its nodes, statements or expressions, or of a segment of a path. -/
inductive PartSpan (b : Builder) (m : ModuleEntry) : Span → Prop
  | module : PartSpan b m m.span
  | node {way : List Nat} {id : NodeId} {n : NodeEntry} : b.Reached m.nodes way (.node id) → b.node? id = some n →
      PartSpan b m n.span
  | stmt {way : List Nat} {id : StmtId} {s : StmtEntry} : b.Reached m.nodes way (.stmt id) → b.stmt? id = some s →
      PartSpan b m s.span
  | expr {way : List Nat} {id : ExprId} {e : ExprEntry} : b.Reached m.nodes way (.expr id) → b.expr? id = some e →
      PartSpan b m e.span
  | segment {way : List Nat} {id : ExprId} {e : ExprEntry} {ns : List NameEntry} {n : NameEntry} :
      b.Reached m.nodes way (.expr id) → b.expr? id = some e → e.kind = .known .path →
      b.paths.get? e.payload = some ns → n ∈ ns → PartSpan b m n.span

theorem segment_framed {b : Builder} {e : Expr} {id : ExprId} {entry : ExprEntry} {ns : List NameEntry}
    {w : List Token} (held : b.Holds e id) (read : b.expr? id = some entry) (kind : entry.kind = .known .path)
    (stored : b.paths.get? entry.payload = some ns) (spelled : Spells w e) (order : Ordered w) :
    ∀ n ∈ ns, Framed w n.span := by
  obtain ⟨payload, found⟩ := held.entry
  cases found.symm.trans read
  -- only a path has an entry of this kind
  cases e with
  | path segments =>
    obtain ⟨data, entries, entry, names, all⟩ := held
    cases entry.symm.trans read
    cases names.symm.trans stored
    intro n member
    obtain ⟨segment, hs, holds⟩ := all.exists_of_mem member
    rw [holds.span]
    exact (spelled.segment order segment hs).1
  | literal kind raw span => cases kind
  | name n => cases kind
  | tuple elements span => cases kind
  | unary op operand span => cases kind
  | binary op l r span => cases kind

theorem partSpan_framed {b : Builder} {m : ModuleEntry} {ss : List Statement} {toks : List Token}
    (held : b.HoldsNodes ss m.nodes) (span : m.span = moduleSpan ss) (nonempty : m.nodes ≠ [])
    (spelled : Repeated SpellsStatement toks ss) (order : Ordered toks) {s : Span} (h : PartSpan b m s) :
    Framed toks s := by
  have statement {s : Statement} (hs : s ∈ ss) : Framed toks s.span :=
    repeated_framed SpellsStatement.framed spelled order s hs
  cases h with
  | module =>
    rw [span]
    refine (moduleSpan_framed order spelled ?_).1
    rintro rfl
    exact nonempty held
  | node reached read =>
    obtain ⟨s, hs, stmt, node, _⟩ := reached_spelled held spelled reached
    cases node.symm.trans read
    exact statement hs
  | stmt reached read =>
    obtain ⟨s, hs, held⟩ := reached_spelled held spelled reached
    obtain ⟨entry, found, same⟩ := held.stmt?_span
    cases found.symm.trans read
    exact same ▸ statement hs
  | expr reached read =>
    obtain ⟨e, ⟨w, within, word⟩, held⟩ := reached_spelled held spelled reached
    obtain ⟨payload, found⟩ := held.entry
    cases found.symm.trans read
    exact (word.framed (order.sublist within)).mono within.subset
  | segment reached read kind stored member =>
    obtain ⟨e, ⟨w, within, word⟩, held⟩ := reached_spelled held spelled reached
    exact (segment_framed held read kind stored word (order.sublist within) _ member).mono within.subset

/-- A module that is put in lies right in its source, whatever the builder held: no fault is found, statements follow
one another, and every span is inside the source, has the length that it says, and starts at one token, on
whose line it is. -/
theorem parsed_module_is_placed {src : Bytes} (short : src.length < UInt32.size) {ss : List Statement}
    (parsed : parseModule (tokenize src) = .ok ss) (b : Builder) :
    let built := buildModule b (tokenize src)
    ∃ id m, built.1 = .ok id ∧ built.2.misplaced id src = .ok none ∧
      built.2.module? id = some m ∧ m.nodes.length = ss.length ∧
      (m.nodes ≠ [] →
        ((m.nodes.filterMap built.2.node?).Pairwise fun n n' => n.span.stop ≤ n'.span.start) ∧
        ∀ s, PartSpan built.2 m s →
          s.start < s.stop ∧ s.stop.toNat ≤ src.length ∧ s.length = s.stop - s.start ∧
          ∃ tok ∈ tokenize src, tok.span.start = s.start ∧ s.line = tok.span.line ∧
            ∀ other ∈ tokenize src, other.span.start = s.start → other = tok) := by
  have spelled := parseModule_spells parsed
  have order := tokenize_ordered short
  obtain ⟨id, m, ok, stored⟩ := buildModule_stored b parsed
  have held := stored.holds
  refine ⟨id, m, ok, misplaced_eq_none stored short spelled, stored.found, held.length, ?_⟩
  intro nonempty
  refine ⟨?_, fun s part => ?_⟩
  · have apart : (ss.map Statement.span).Pairwise fun s t => s.stop ≤ t.start :=
      List.pairwise_map.2 (repeated_apart SpellsStatement.framed spelled order)
    rw [← held.spans] at apart
    exact List.pairwise_map.1 apart
  · have framed := partSpan_framed held stored.span nonempty spelled order part
    obtain ⟨tok, member, start, line⟩ := framed.first
    refine ⟨framed.proper.nonempty, framed.stop_le short, framed.proper.length, tok, member, start, line.symm, ?_⟩
    exact fun other hother same => order.eq_of_start hother member (same.trans start.symm)

/-- `a;` and, on the next line, `(b.c, -1);`. -/
private def twoLines : Bytes :=
  [0x61, 0x3B, 0x0A, 0x28, 0x62, 0x2E, 0x63, 0x2C, 0x20, 0x2D, 0x31, 0x29, 0x3B]

theorem two_lines_are_placed :
    let built := buildModule {} (tokenize twoLines)
    ∃ id m, built.1 = .ok id ∧ built.2.misplaced id twoLines = .ok none ∧
      built.2.module? id = some m ∧ m.nodes.length = 2 ∧
      ((m.nodes.filterMap built.2.node?).Pairwise fun n n' => n.span.stop ≤ n'.span.start) ∧
      ∃ tok ∈ tokenize twoLines, tok.span.start = m.span.start ∧ m.span.line = tok.span.line := by
  have two : (parseModule (tokenize twoLines)).toOption.map List.length = some 2 := by decide +kernel
  cases parsed : parseModule (tokenize twoLines) with
  | error failure =>
    rw [parsed] at two
    cases two
  | ok ss =>
    rw [parsed] at two
    obtain ⟨id, m, ok, placed, found, length, rest⟩ := parsed_module_is_placed (by decide) parsed {}
    have count : m.nodes.length = 2 := length.trans (Option.some.inj two)
    obtain ⟨apart, spans⟩ := rest (List.ne_nil_of_length_pos (by rw [count]; decide))
    obtain ⟨_, _, _, tok, member, start, line, _⟩ := spans m.span .module
    exact ⟨id, m, ok, placed, found, count, apart, tok, member, start, line⟩

end LetStack.Grammar
