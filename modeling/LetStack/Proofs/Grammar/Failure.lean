import LetStack.Proofs.Grammar.Places

/-!
Every failure of `parseModule` has the code of a syntax error, a reason of the grammar and a message of characters
(`parseModule_failure`), since every rule that is `Built` fails so, by one law for each combinator.
-/

namespace LetStack.Grammar

/-- The words of a reason are texts of characters. -/
def Reason.Worded : Reason → Prop
  | .mismatch expected => ∀ x ∈ expected, Utf8.Encoded x
  | .unimplemented feature => Utf8.Encoded feature
  | .trailing => True
  | .foreign message _ => Utf8.Encoded message

/-- A failure with the code of a syntax error and a reason of the grammar, in words. -/
structure Error.IsOwn (e : Error) : Prop where
  code : e.code.family? = some "SYN"
  reason : ∀ message wrapped, e.reason ≠ .foreign message wrapped
  words : e.reason.Worded

theorem Error.IsOwn.expected {e : Error} (h : e.IsOwn) : ∀ x ∈ e.expected, Utf8.Encoded x := by
  have words := h.words
  unfold Error.expected
  split
  · next same =>
    rw [same] at words
    exact words
  · exact fun _ member => absurd member List.not_mem_nil

theorem Error.IsOwn.furthest {a b : Error} (ha : a.IsOwn) (hb : b.IsOwn) : (a.furthest b).IsOwn := by
  unfold Error.furthest
  split
  · exact hb
  split
  · exact ha
  · exact ⟨ha.code, nofun, List.forall_mem_append.2 ⟨ha.expected, hb.expected⟩⟩

theorem encoded_describe (kind : Token.Kind) : Utf8.Encoded kind.describe := by
  unfold Token.Kind.describe
  split
  · exact ((Utf8.encoded_ofString _).append (Utf8.encoded_ofString _)).append (Utf8.encoded_ofString _)
  · exact Utf8.encoded_ofString _

namespace Rule

variable {α β : Type}

/-- Every failure of the rule is the grammar's own. -/
def FailsOwn (r : Rule α) : Prop := ∀ ⦃i e⦄, r i = .error e → e.IsOwn

theorem here_isOwn {i : Input} {code : Code} {reason : Reason} (h : code.family? = some "SYN")
    (own : ∀ message wrapped, reason ≠ .foreign message wrapped) (words : reason.Worded) : (Error.here i code reason).IsOwn :=
  ⟨h, own, words⟩

theorem mismatch_isOwn {i : Input} {code : Code} {expected : List Bytes} (h : code.family? = some "SYN")
    (words : ∀ x ∈ expected, Utf8.Encoded x) : (Error.mismatch i code expected).IsOwn := here_isOwn h nofun words

theorem tag_failsOwn (kind : Token.Kind) : (tag kind).FailsOwn := by
  have code : (missingCode kind).family? = some "SYN" := by cases kind <;> decide
  have words : ∀ x ∈ [kind.describe], Utf8.Encoded x := List.forall_mem_singleton.2 (encoded_describe kind)
  intro i e h
  unfold tag at h
  split at h
  · split at h
    · cases h
    · cases h
      exact mismatch_isOwn code words
  · cases h
    exact mismatch_isOwn code words

theorem oneOf_failsOwn (kinds : List Token.Kind) : (oneOf kinds).FailsOwn := by
  have words : ∀ x ∈ kinds.map Token.Kind.describe, Utf8.Encoded x :=
    List.forall_mem_map.2 fun kind _ => encoded_describe kind
  intro i e h
  unfold oneOf at h
  split at h
  · split at h
    · cases h
    · cases h
      exact mismatch_isOwn (by decide) words
  · cases h
    exact mismatch_isOwn (by decide) words

theorem FailsOwn.map {r : Rule α} (h : r.FailsOwn) (f : α → β) : (map r f).FailsOwn := by
  intro i e failed
  unfold Rule.map at failed
  split at failed
  · cases failed
  · next error =>
    cases failed
    exact h error

variable {r : Rule α} {s : Rule β}

theorem FailsOwn.pair (hr : r.FailsOwn) (hs : s.FailsOwn) : (pair r s).FailsOwn := by
  intro i e failed
  unfold Rule.pair at failed
  split at failed
  · next error =>
    cases failed
    exact hr error
  · split at failed
    · next error =>
      cases failed
      exact hs error
    · cases failed

theorem firstOf_failsOwn {rules : List (Rule α)} (h : ∀ r ∈ rules, r.FailsOwn) {best : Option Error}
    (hbest : ∀ e, best = some e → e.IsOwn) : (firstOf best rules).FailsOwn := by
  induction rules generalizing best with
  | nil =>
    intro i e failed
    cases failed
    cases best with
    | none => exact mismatch_isOwn (by decide) fun _ member => absurd member List.not_mem_nil
    | some e => exact hbest e rfl
  | cons r rules ih =>
    intro i e failed
    simp only [firstOf] at failed
    split at failed
    · cases failed
    · next e' error =>
      have own := h r (.head _) error
      split at failed
      · refine ih (fun s hs => h s (.tail _ hs)) ?_ failed
        rintro e ⟨⟩
        rw [Error.unwrapped_of_own own.reason]
        cases best with
        | none => exact own
        | some b => exact (hbest b rfl).furthest own
      · cases failed
        exact own

theorem alt_failsOwn {rules : List (Rule α)} (h : ∀ r ∈ rules, r.FailsOwn) : (alt rules).FailsOwn :=
  firstOf_failsOwn h nofun

theorem FailsOwn.many0 (h : r.FailsOwn) : (many0 r).FailsOwn := by
  intro i e failed
  unfold Rule.many0 at failed
  fun_induction many r i with
  | case1 => cases failed
  | case2 => cases failed
  | case3 i notEnd e' error fatal =>
    cases failed
    exact h error
  | case4 i notEnd a j ok progress e' error ih =>
    cases failed
    exact ih error
  | case5 => cases failed
  | case6 => cases failed

theorem FailsOwn.opt (h : r.FailsOwn) : (opt r).FailsOwn := by
  intro i e failed
  unfold Rule.opt at failed
  split at failed
  · cases failed
  · next error =>
    split at failed
    · cases failed
    · cases failed
      exact h error

theorem FailsOwn.label (h : r.FailsOwn) {what : Bytes} (word : Utf8.Encoded what) {code : Code}
    (hcode : code.family? = some "SYN") : (label r what code).FailsOwn := by
  intro i e failed
  unfold Rule.label at failed
  split at failed
  · cases failed
  · next error =>
    split at failed
    · cases failed
      exact mismatch_isOwn hcode (List.forall_mem_singleton.2 word)
    · cases failed
      exact h error

theorem FailsOwn.unimplemented (h : r.FailsOwn) {feature : Bytes} (word : Utf8.Encoded feature) :
    (unimplemented r feature : Rule β).FailsOwn := by
  intro i e failed
  unfold Rule.unimplemented at failed
  split at failed
  · next error =>
    cases failed
    exact h error
  · cases failed
    exact here_isOwn (by decide) (fun _ _ => Reason.noConfusion) word

theorem FailsOwn.allConsuming (h : r.FailsOwn) : (allConsuming r).FailsOwn := by
  intro i e failed
  unfold Rule.allConsuming at failed
  split at failed
  · next error =>
    cases failed
    exact h error
  · split at failed
    · cases failed
    · cases failed
      exact here_isOwn (by decide) (fun _ _ => Reason.noConfusion) trivial

theorem Built.failsOwn (h : Built r) : r.FailsOwn := by
  induction h with
  | tag kind => exact tag_failsOwn kind
  | oneOf kinds => exact oneOf_failsOwn kinds
  | map f _ ih => exact ih.map f
  | pair _ _ ihr ihs => exact ihr.pair ihs
  | alt _ ih => exact alt_failsOwn ih
  | many0 _ ih => exact ih.many0
  | opt _ ih => exact ih.opt
  | label word code _ ih => exact ih.label word code
  | unimplemented word _ ih => exact ih.unimplemented word
  | deferred _ ih => exact fun i _ failed => ih i failed

end Rule

theorem parseModule_failure {toks : List Token} {failure : Failure}
    (h : parseModule toks = .error failure) : failure.error.IsOwn := by
  unfold parseModule at h
  extract_lets start at h
  split at h
  · cases h
  · next e failed =>
    have own := node_built.failsOwn.many0.allConsuming failed
    split at h <;> cases h <;> exact own

end LetStack.Grammar
