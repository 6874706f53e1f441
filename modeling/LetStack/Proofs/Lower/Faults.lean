import LetStack.Proofs.Grammar.Spans
import LetStack.Proofs.Lower.Decoding
import LetStack.Proofs.Lower.Escapes
import LetStack.Proofs.Lower.Tree

/-!
Lowering stops at a name, a path or a literal, and its fault is taken from the tokens of that part (`FaultAt`,
`statement_faultAt`). In a source of characters it starts and ends between characters, unless it is about an escape
that cuts one (`FaultAt.reported`).
-/

namespace LetStack.Lower
open Ast Grammar Utf8

/-! ## Faults and tokens -/

/-- The fault is that of a name, a path or a literal among the tokens. -/
inductive FaultAt (w : List Token) : Fault → Prop
  | undefinedName {tok : Token} : tok ∈ w →
      FaultAt w (.user .undefinedName tok.span ("cannot find `" ++ tok.text ++ "` in this scope"))
  | placeholderValue {tok : Token} : tok ∈ w →
      FaultAt w (.user .placeholderValue tok.span "`_` cannot be used as a value")
  | path {span : Span} : Framed w span → FaultAt w (.unimplemented span "path")
  | literal {tok : Token} {kind : LiteralKind} {f : Fault} : tok ∈ w → (tok.kind, kind) ∈ literalKinds →
      literalInstr (.known kind) tok.text tok.span = .error f → FaultAt w f

variable {w : List Token} {f : Fault} {scope : Scope} {src : Bytes}

theorem FaultAt.mono {u : List Token} (h : FaultAt u f) (sub : u ⊆ w) : FaultAt w f := by
  cases h with
  | undefinedName member => exact .undefinedName (sub member)
  | placeholderValue member => exact .placeholderValue (sub member)
  | path framed => exact .path (framed.mono sub)
  | literal member pair failed => exact .literal (sub member) pair failed

theorem andThen_fault {a b : Lowered} (h : (a.andThen b).outcome = .fault f) :
    a.outcome = .fault f ∨ b.outcome = .fault f := by
  have either : ∀ f, (a.andThen b).outcome = .fault f → a.outcome = .fault f ∨ b.outcome = .fault f :=
    @Lowered.andThen_outcome a b (fun o => ∀ f, o = .fault f → a.outcome = .fault f ∨ b.outcome = .fault f)
      (fun _ => .inl) (fun _ => .inr)
  exact either f h

theorem andThen_emit_fault {a : Lowered} {i : Machine.Instr} {span : Span}
    (h : (a.andThen (.emit i span)).outcome = .fault f) : a.outcome = .fault f :=
  (andThen_fault h).resolve_right Outcome.noConfusion

theorem lowerAll_fault {es : List Expr} (h : (Expr.lowerAll scope es).outcome = .fault f) :
    ∃ e ∈ es, (e.lower scope).outcome = .fault f := by
  induction es with
  | nil =>
    rw [Expr.lowerAll] at h
    cases h
  | cons e es ih =>
    rw [Expr.lowerAll] at h
    rcases andThen_fault h with first | later
    · exact ⟨e, List.mem_cons_self, first⟩
    · obtain ⟨e', member, fault⟩ := ih later
      exact ⟨e', List.mem_cons_of_mem e member, fault⟩

theorem name_faultAt {tok : Token} {n : Name} (h : SpellsName tok n) (out : (n.lower scope).outcome = .fault f) :
    FaultAt [tok] f := by
  cases h with
  | ident _ =>
    rw [Name.lower] at out
    split at out
    · cases out
    · cases out
      exact .undefinedName List.mem_cons_self
  | placeholder _ =>
    cases out
    exact .placeholderValue List.mem_cons_self

theorem expr_faultAt {e : Expr} (h : Spells w e) (order : Token.Ordered w) (out : (e.lower scope).outcome = .fault f) :
    FaultAt w f := by
  induction h with
  | literal pair =>
    rw [Expr.lower, lowerLiteral_eq] at out
    unfold Lowered.ofInstr at out
    split at out
    · cases out
    · next failed =>
      cases out
      exact .literal List.mem_cons_self pair failed
  | name spelled =>
    rw [Expr.lower] at out
    exact name_faultAt spelled out
  | path first rest =>
    rw [Expr.lower] at out
    cases out
    exact .path (path_framed order first rest).1
  | @group opening closing w e _ _ _ ih =>
    have inside := sublist_between opening closing w
    exact (ih (order.sublist inside) out).mono inside.subset
  | @tuple opening closing elements trailing hopen words hcommas htrailing _ hclose ih =>
    rw [Expr.lower] at out
    obtain ⟨e, member, fault⟩ := lowerAll_fault (andThen_emit_fault out)
    obtain ⟨x, hx, rfl⟩ := List.mem_map.1 member
    have inside := (sublist_between opening closing x.word).trans (element_sublist opening closing hx trailing)
    exact (ih x hx (order.sublist inside) fault).mono inside.subset
  | @unary tok op w e _ _ ih =>
    have inside := List.sublist_cons_self tok w
    rw [Expr.lower] at out
    split at out
    · cases out
    · exact (ih (order.sublist inside) (andThen_emit_fault out)).mono inside.subset
  | @binary tok op u v l r _ _ _ left right =>
    have front : u.Sublist (u ++ tok :: v) := List.sublist_append_left u _
    have back : v.Sublist (u ++ tok :: v) := (List.sublist_cons_self tok v).trans (List.sublist_append_right u _)
    rw [Expr.lower] at out
    rcases andThen_fault (andThen_emit_fault out) with fault | fault
    · exact (left (order.sublist front) fault).mono front.subset
    · exact (right (order.sublist back) fault).mono back.subset

theorem statement_faultAt {s : Statement} (h : SpellsStatement w s) (order : Token.Ordered w)
    (out : (s.lower scope).lowered.outcome = .fault f) : FaultAt w f := by
  obtain ⟨u, within, spelled, _⟩ := h.value
  have value : (s.value.lower scope).outcome = .fault f := by
    cases s with
    | expr value span => exact andThen_emit_fault out
    | letIn n value span => cases n <;> exact andThen_emit_fault out
  exact (expr_faultAt spelled (order.sublist within) value).mono within.subset

/-! ## Faults in their source -/

/-- The report is about a backslash with a character of several bytes behind it. -/
def CutsCharacter (src : Bytes) (code : Code) (span : Span) : Prop :=
  code = .invalidEscape ∧ HighBehind src span.start.toNat

/-- A report in a source of characters: it starts between them, and it ends between them and speaks in characters
unless it cuts one. -/
structure Reported (src : Bytes) (code : Code) (span : Span) (message : Bytes) : Prop where
  start : Boundary src span.start.toNat
  stop : Boundary src span.stop.toNat ↔ ¬CutsCharacter src code span
  message : Encoded message ↔ ¬CutsCharacter src code span

theorem Reported.of_aligned {src : Bytes} {code : Code} {span : Span} {message : Bytes}
    (other : code ≠ .invalidEscape) (aligned : span.Aligned src) (text : Encoded message) :
    Reported src code span message where
  start := aligned.start
  stop := iff_of_true aligned.stop fun cuts => other cuts.1
  message := iff_of_true text fun cuts => other cuts.1

theorem user_isReported {code : Code} {span : Span} {message : Bytes} (other : code ≠ .invalidEscape)
    (aligned : span.Aligned src) (text : Encoded message) :
    Reported src (Fault.user code span message).code (Fault.user code span message).span
      (Fault.user code span message).message :=
  .of_aligned other aligned text

theorem encoded_around {before after : String} {text : Bytes} (h : Encoded text) : Encoded (before ++ text ++ after) :=
  ((encoded_ofString before).append h).append (encoded_ofString after)

section
variable {src : Bytes} {tok : Token} (placed : Token.Placed src tok) (aligned : tok.span.Aligned src)
include placed aligned

theorem unescape_isReported (long : 2 ≤ tok.text.length) {f : Fault} (h : unescape tok.text tok.span = .error f) :
    Reported src f.code f.span f.message := by
  obtain ⟨code, start, stop, message⟩ := unescape_reported placed aligned long h
  have cuts : CutsCharacter src f.code f.span ↔ HighBehind src f.span.start.toNat := and_iff_right code
  exact ⟨start, stop.trans (not_congr cuts.symm), message.trans (not_congr cuts.symm)⟩

theorem literalInstr_isReported (text : Encoded tok.text) (written : Token.LiteralText tok.kind tok.text)
    {kind : LiteralKind} (pair : (tok.kind, kind) ∈ literalKinds) {f : Fault}
    (h : literalInstr (.known kind) tok.text tok.span = .error f) : Reported src f.code f.span f.message := by
  cases kind with
  | int =>
    simp only [literalInstr, instrOf] at h
    split at h
    · cases h
    · cases h
      exact user_isReported (by decide) aligned (encoded_around text)
    · cases h
      exact user_isReported (by decide) aligned (encoded_around text)
  | decimal | exponent =>
    simp only [literalInstr, instrOf] at h
    split at h
    · cases h
    · cases h
      exact user_isReported (by decide) aligned (encoded_around text)
    · cases h
      exact user_isReported (by decide) aligned (encoded_around text)
  | bool => cases h
  | char =>
    have quoted : tok.kind = .charLit := by simpa [literalKinds] using pair
    rw [quoted] at written
    simp only [literalInstr, instrOf] at h
    split at h
    · next bad =>
      cases h
      exact unescape_isReported placed aligned written bad
    · split at h
      · cases h
      · cases h
        exact user_isReported (by decide) aligned (encoded_around text)
  | string =>
    have quoted : tok.kind = .stringLit := by simpa [literalKinds] using pair
    rw [quoted] at written
    exact unescape_isReported placed aligned written (error_of_map_error h)

end

theorem framed_aligned (aligned : ∀ tok ∈ w, tok.span.Aligned src) {s : Span} (h : Framed w s) : s.Aligned src := by
  obtain ⟨first, inFirst, start, _⟩ := h.first
  obtain ⟨last, inLast, stop⟩ := h.last
  exact ⟨start ▸ (aligned first inFirst).start, stop ▸ (aligned last inLast).stop⟩

theorem FaultAt.reported (whole : Encoded src) (short : src.length < UInt32.size) (h : FaultAt (tokenize src) f) :
    Reported src f.code f.span f.message := by
  have token {tok : Token} (member : tok ∈ tokenize src) := Token.tokenize_aligned whole short member
  cases h with
  | undefinedName member => exact user_isReported (by decide) (token member).2 (encoded_around (token member).1)
  | placeholderValue member => exact user_isReported (by decide) (token member).2 (encoded_ofString _)
  | path framed =>
    have aligned := framed_aligned (fun _ member => (token member).2) framed
    have message := (encoded_ofString "path").append (encoded_ofString " is not implemented now")
    exact @Reported.of_aligned _ .unsupportedFeature _ _ (by decide) aligned message
  | literal member pair failed =>
    obtain ⟨text, aligned⟩ := token member
    exact literalInstr_isReported (Token.tokenize_placed short member) aligned text
      (Token.literalText_of_mem_tokenize member) pair failed

end LetStack.Lower
