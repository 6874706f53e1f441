import LetStack.Proofs.Grammar.Completeness
import LetStack.Proofs.Grammar.Places

/-!
`parseModule` fails at a form without grammar or with tokens left over. These lie behind the longest prefix that is a
module by itself, and the cause says where no statement goes on (`parseModule_stops`).
-/

namespace LetStack.Grammar
open Ast Rule

/-! ## Repetitions -/

/-- A repetition ends at the end of input, at a mismatch, or where a match reads nothing. -/
theorem many0_ok {α : Type} {r : Rule α} {i j : Input} {as : List α} (h : many0 r i = .ok (as, j)) :
    j.atEnd = true ∨ (∃ e, r j = .error e ∧ e.isMismatch = true) ∨
      ∃ a k, r j = .ok (a, k) ∧ ¬k.left < j.left := by
  unfold many0 at h
  fun_induction many r i generalizing as with
  | case1 i atEnd =>
    cases h
    exact .inl atEnd
  | case2 i notEnd e failed mismatch =>
    cases h
    exact .inr (.inl ⟨e, failed, mismatch⟩)
  | case3 => cases h
  | case4 => cases h
  | case5 i notEnd a m matched progress bs k rest ih =>
    cases h
    exact ih rest
  | case6 i notEnd a m matched stuck =>
    cases h
    exact .inr (.inr ⟨a, m, matched, stuck⟩)

theorem many0_error {α : Type} {r : Rule α} {i : Input} {e : Error} (h : many0 r i = .error e) :
    e.isMismatch = false := by
  unfold many0 at h
  fun_induction many r i with
  | case1 => cases h
  | case2 => cases h
  | case3 i notEnd e' failed fatal =>
    cases h
    exact Bool.eq_false_iff.2 fatal
  | case4 i notEnd a j matched progress e' failed ih =>
    cases h
    exact ih failed
  | case5 => cases h
  | case6 => cases h

/-! ## Statements -/

theorem Derives.statement_ne_nil {s : StatementForm} {w : List Token} (h : Derives (.statement s) w) :
    w ≠ [] := by
  cases h with
  | exprStatement => simp
  | letStatement => simp

theorem node_reads {i j : Input} {s : Statement} (h : node i = .ok (s, j)) : j.left < i.left := by
  obtain ⟨w, split, read⟩ := node_sound h
  have some := List.length_pos_iff.2 read.derives.statement_ne_nil
  rw [i.left_eq_length, j.left_eq_length, split, List.length_append]
  omega

theorem many0_node_covers {forms : List StatementForm} {w rest : List Token} (h : Derives (.module forms) w)
    {i j : Input} (hi : i.unread = w ++ rest) {ss : List Statement} (read : many0 node i = .ok (ss, j)) :
    j.unread.length ≤ rest.length := by
  generalize hp : Phrase.module forms = p at h
  induction h generalizing forms i ss with
  | noStatement =>
    obtain ⟨v, split, _⟩ := node_sound.many0 read
    rw [hi, List.nil_append] at split
    rw [split, List.length_append]
    omega
  | @statements s forms' u v hd _ _ ih =>
    -- whatever follows the first statement, the rule reads it and no more
    rw [List.append_assoc] at hi
    obtain ⟨a, k, matched, hk, _⟩ := parse_of_derives hd (v ++ rest) i hi
    have goesOn : ∃ bs, many0 node k = .ok (bs, j) := by
      have progress := node_reads matched
      have notEnd : ¬i.atEnd = true := by
        rw [Input.atEnd, decide_eq_true_iff]
        unfold Input.left at progress
        omega
      unfold many0 many at read
      rw [if_neg notEnd] at read
      simp only [matched, if_pos progress] at read
      split at read
      · cases read
      · next bs m behind =>
        cases read
        exact ⟨bs, behind⟩
    obtain ⟨bs, behind⟩ := goesOn
    exact ih hk behind rfl
  | _ => cases hp

/-! ## Modules -/

/-- Tokens are left over at `j` behind the statements, with the reason why none starts there. -/
structure LeftOver (toks : List Token) (failure : Failure) (statements : List Statement) (j : Input)
    (cause : Error) : Prop where
  read : many0 node { tokens := toks.toArray } = .ok (statements, j)
  notEnd : j.atEnd = false
  error : failure.error = .here j .trailingInput .trailing
  explained : failure.cause = some cause
  missed : node j = .error cause
  mismatch : cause.isMismatch = true

theorem start_inRange (toks : List Token) : ({ tokens := toks.toArray } : Input).InRange := Nat.zero_le _

/-- A parse fails at a form without grammar, or with tokens left over. -/
theorem parseModule_error {toks : List Token} {failure : Failure} (h : parseModule toks = .error failure) :
    (∃ feature, failure.error.reason = .unimplemented feature) ∨
      ∃ statements j cause, LeftOver toks failure statements j cause := by
  unfold parseModule at h
  extract_lets start at h
  split at h
  · cases h
  · next e failed =>
    unfold allConsuming at failed
    split at failed
    · next e' error =>
      cases failed
      have fatal := many0_error error
      obtain ⟨j, code, reason, _, own, rfl⟩ := node_built.many0.placed.error (start_inRange toks) error
      cases reason with
      | mismatch expected => cases fatal
      | unimplemented feature => split at h <;> cases h <;> exact .inl ⟨feature, rfl⟩
      | trailing => exact own.elim
      | foreign message wrapped => exact own.elim
    · next statements j read =>
      split at failed
      · cases failed
      · next notEnd =>
        cases failed
        have stopped : ∃ cause, node j = .error cause ∧ cause.isMismatch = true := by
          rcases many0_ok read with atEnd | missed | ⟨a, k, matched, stuck⟩
          · exact absurd atEnd notEnd
          · exact missed
          · exact absurd (node_reads matched) stuck
        obtain ⟨cause, missed, mismatch⟩ := stopped
        -- the rule is tried again where the repetition stopped
        have again : start.moveTo j.pos = j := by
          obtain ⟨tokens, _, inside⟩ := node_built.many0.placed.ok (start_inRange toks) read
          obtain ⟨_, pos⟩ := j
          cases tokens
          exact congrArg _ (Nat.min_eq_left inside)
        have tried : node (start.moveTo j.pos) = .error cause := by rw [again, missed]
        simp only [Error.here, tried] at h
        cases h
        exact .inr ⟨statements, j, cause, read, Bool.eq_false_iff.2 notEnd, rfl, rfl, missed, mismatch⟩

namespace LeftOver

variable {toks : List Token} {failure : Failure} {statements : List Statement} {j : Input} {cause : Error}

theorem reaches (h : LeftOver toks failure statements j cause) :
    ({ tokens := toks.toArray } : Input).Reaches j :=
  node_built.many0.placed.ok (start_inRange toks) h.read

theorem unread_eq (h : LeftOver toks failure statements j cause) : j.unread = toks.drop j.pos := by
  rw [Input.unread, h.reaches.tokens]

theorem pos_lt (h : LeftOver toks failure statements j cause) : j.pos < toks.length := by
  have notEnd := h.notEnd
  rw [Input.atEnd, h.reaches.tokens, decide_eq_false_iff_not] at notEnd
  exact Nat.lt_of_not_le notEnd

theorem take_parses (h : LeftOver toks failure statements j cause) :
    ∃ ss, parseModule (toks.take j.pos) = .ok ss := by
  obtain ⟨w, split, read⟩ := node_sound.many0 h.read
  have whole : w = toks.take j.pos := by
    rw [unread_start, h.unread_eq] at split
    exact List.append_cancel_right (split.symm.trans (List.take_append_drop j.pos toks).symm)
  obtain ⟨ss, parsed, _⟩ := parseModule_complete (statements_derives read).1
  exact ⟨ss, whole ▸ parsed⟩

theorem longest (h : LeftOver toks failure statements j cause) {q : Nat} (hq : q ≤ toks.length)
    {ss : List Statement} (parsed : parseModule (toks.take q) = .ok ss) : q ≤ j.pos := by
  have split : ({ tokens := toks.toArray } : Input).unread = toks.take q ++ toks.drop q :=
    (unread_start toks).trans (List.take_append_drop q toks).symm
  have covers := many0_node_covers (parseModule_sound parsed).1 split h.read
  have inside := h.pos_lt
  rw [h.unread_eq, List.length_drop, List.length_drop] at covers
  omega

theorem span_eq (h : LeftOver toks failure statements j cause) :
    ∃ tok, toks[j.pos]? = some tok ∧ failure.error.span = tok.span := by
  have peeked : j.peek? = toks[j.pos]? := by rw [Input.peek?, h.reaches.tokens, List.getElem?_toArray]
  cases found : toks[j.pos]? with
  | none => exact absurd h.pos_lt (Nat.not_lt.2 (List.getElem?_eq_none_iff.1 found))
  | some tok =>
    refine ⟨tok, rfl, ?_⟩
    rw [h.error]
    show j.span = tok.span
    rw [Input.span, peeked, found]

theorem cause_pos (h : LeftOver toks failure statements j cause) :
    j.pos ≤ cause.pos ∧ cause.pos ≤ toks.length := by
  have inside := h.reaches.inRange
  obtain ⟨k, _, _, further, _, rfl⟩ := node_built.placed.error inside h.missed
  exact ⟨further.forward, (h.reaches.trans further).inside⟩

end LeftOver

/-- A parse that fails has found a form without grammar or tokens left over. Those left over start
behind the longest prefix that parses, and their first one is where the failure lies; the cause is a
mismatch there or further on. -/
theorem parseModule_stops {toks : List Token} {failure : Failure} (h : parseModule toks = .error failure) :
    (failure.error.reason = .trailing ∨ ∃ feature, failure.error.reason = .unimplemented feature) ∧
    (failure.error.reason = .trailing →
      let p := failure.error.pos
      p < toks.length ∧ (∃ statements, parseModule (toks.take p) = .ok statements) ∧
      (∀ q ≤ toks.length, (∃ statements, parseModule (toks.take q) = .ok statements) → q ≤ p) ∧
      (∃ tok, toks[p]? = some tok ∧ failure.error.span = tok.span) ∧
      ∃ cause, failure.cause = some cause ∧ cause.isMismatch = true ∧ p ≤ cause.pos ∧
        cause.pos ≤ toks.length) := by
  rcases parseModule_error h with ⟨feature, reason⟩ | ⟨statements, j, cause, left⟩
  · refine ⟨.inr ⟨feature, reason⟩, fun trailing => ?_⟩
    rw [reason] at trailing
    cases trailing
  · have pos : failure.error.pos = j.pos := by rw [left.error]; rfl
    refine ⟨.inl (by rw [left.error]; rfl), fun _ => ?_⟩
    rw [pos]
    refine ⟨left.pos_lt, left.take_parses, ?_, left.span_eq, cause, left.explained, left.mismatch, left.cause_pos⟩
    rintro q hq ⟨ss, parsed⟩
    exact left.longest hq parsed

/-- `x; (y`, where a parenthesis is left open. -/
private def leftOpen : List Token :=
  [{ kind := .ident }, { kind := .semicolon }, { kind := .lParen }, { kind := .ident }]

theorem left_open_stops :
    ∃ failure, parseModule leftOpen = .error failure ∧ failure.error.reason = .trailing ∧
      failure.error.pos = 2 ∧ (∃ statements, parseModule (leftOpen.take 2) = .ok statements) ∧
      ∃ cause, failure.cause = some cause ∧ cause.isMismatch = true ∧ cause.pos = 4 := by
  have outcome : (match parseModule leftOpen with
      | .error f => some (f.error.reason, f.error.pos, f.cause.map Error.pos)
      | .ok _ => none) = some (.trailing, 2, some 4) := by decide +kernel
  cases parsed : parseModule leftOpen with
  | ok statements =>
    rw [parsed] at outcome
    cases outcome
  | error failure =>
    rw [parsed] at outcome
    obtain ⟨reason, pos, causePos⟩ : _ ∧ _ ∧ _ := by simpa using outcome
    obtain ⟨_, trailing⟩ := parseModule_stops parsed
    obtain ⟨_, accepted, _, _, cause, explained, mismatch, _⟩ := trailing reason
    rw [pos] at accepted
    rw [explained] at causePos
    exact ⟨failure, rfl, reason, pos, accepted, cause, explained, mismatch, by simpa using causePos⟩

end LetStack.Grammar
