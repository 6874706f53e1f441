import LetStack.Proofs.Grammar.Contract
import LetStack.Proofs.Grammar.Failure
import LetStack.Proofs.Grammar.Stopping
import LetStack.Proofs.Token.Characters

/-!
The failure of `parseModule` and its cause describe positions over the tokens (`parseModule_errors`), so in a source
of characters they lie between characters, with messages of characters (`parseModule_errors_aligned`).
-/

namespace LetStack.Grammar
open Utf8

/-! ## Messages -/

theorem eraseRepsBy_loop_all {α : Type} {P : α → Prop} (r : α → α → Bool) {last : α} {as passed : List α}
    (hlast : P last) (has : ∀ x ∈ as, P x) (hpassed : ∀ x ∈ passed, P x) :
    ∀ x ∈ List.eraseRepsBy.loop r last as passed, P x := by
  induction as generalizing last passed with
  | nil =>
    intro x member
    have member : x ∈ (last :: passed).reverse := member
    exact List.forall_mem_cons.2 ⟨hlast, hpassed⟩ x (List.mem_reverse.1 member)
  | cons a as ih =>
    obtain ⟨ha, has⟩ := List.forall_mem_cons.1 has
    unfold List.eraseRepsBy.loop
    split
    · exact ih hlast has hpassed
    · exact ih ha has (List.forall_mem_cons.2 ⟨hlast, hpassed⟩)

theorem encoded_join {sep : Bytes} {texts : List Bytes} (separator : Encoded sep) (h : ∀ x ∈ texts, Encoded x) :
    Encoded (Bytes.join sep texts) := by
  fun_induction Bytes.join sep texts with
  | case1 => exact .nil
  | case2 x => exact h x List.mem_cons_self
  | case3 x y rest ih =>
    obtain ⟨first, others⟩ := List.forall_mem_cons.1 h
    exact (first.append separator).append (ih others)

theorem encoded_alternatives {expected : List Bytes} (h : ∀ x ∈ expected, Encoded x) :
    Encoded (Error.alternatives expected) := by
  have sorted : ∀ x ∈ Bytes.sort expected, Encoded x := fun x member => h x (List.mem_mergeSort.1 member)
  have once : ∀ x ∈ (Bytes.sort expected).eraseReps.reverse, Encoded x := by
    intro x member
    have member := List.mem_reverse.1 member
    revert member sorted
    cases Bytes.sort expected with
    | nil => exact fun _ member => absurd member List.not_mem_nil
    | cons a as =>
      intro sorted
      obtain ⟨first, others⟩ := List.forall_mem_cons.1 sorted
      exact eraseRepsBy_loop_all _ first others (fun _ member => absurd member List.not_mem_nil) x
  unfold Error.alternatives
  extract_lets texts
  change ∀ x ∈ texts.reverse, Encoded x at once
  split
  · exact .nil
  · next only same =>
    rw [same] at once
    exact once only List.mem_cons_self
  · next last others _ same =>
    rw [same] at once
    obtain ⟨final, others⟩ := List.forall_mem_cons.1 once
    have listed := encoded_join (encoded_ofString ", ") fun x member => others x (List.mem_reverse.1 member)
    exact (listed.append (encoded_ofString _)).append final

theorem Error.IsOwn.encoded_message {e : Error} (own : e.IsOwn) (found : Encoded e.found) : Encoded e.message := by
  have words := own.words
  unfold Error.message
  split
  · exact (encoded_ofString _).append found
  · next expected _ same =>
    rw [same] at words
    have listed := (encoded_ofString "expected ").append (encoded_alternatives words)
    exact (listed.append (encoded_ofString _)).append found
  · next feature same =>
    rw [same] at words
    exact Encoded.append words (encoded_ofString _)
  · exact ((encoded_ofString _).append found).append (encoded_ofString _)
  · next message wrapped same => exact absurd same (own.reason message wrapped)

theorem Input.encoded_found (i : Input) : Encoded i.found := by
  unfold Input.found
  split
  · exact encoded_describe _
  · exact encoded_ofString _

/-! ## Places -/

theorem Input.aligned_span {src : Bytes} (whole : Encoded src) {i : Input}
    (aligned : ∀ tok ∈ i.tokens, tok.span.Aligned src) : i.span.Aligned src := by
  unfold Input.span
  split
  · next tok found => exact aligned tok (Array.mem_of_getElem? found)
  · split
    · next last found =>
      have stop := (aligned last (Array.mem_of_getElem? (Array.back?_eq_getElem? ▸ found))).stop
      exact ⟨stop, stop⟩
    · exact ⟨boundary_zero whole, boundary_zero whole⟩

theorem parseModule_errors {toks : List Token} {failure : Failure} (h : parseModule toks = .error failure) :
    ∀ e, e = failure.error ∨ failure.cause = some e →
      e.IsOwn ∧ ∃ j code reason, j.tokens = toks.toArray ∧ e = .here j code reason := by
  have composed : Rule.Composed Rule.Idle (Rule.allConsuming (Rule.many0 node)) :=
    node_built.composed.many0.allConsuming
  unfold parseModule at h
  extract_lets start at h
  split at h
  · cases h
  · next e failed =>
    obtain ⟨j, code, reason, reaches, _, same⟩ :=
      (composed.placed Rule.Idle.placed).error (start_inRange toks) failed
    have error : e.IsOwn ∧ ∃ j code reason, j.tokens = toks.toArray ∧ e = .here j code reason :=
      ⟨node_built.failsOwn.many0.allConsuming failed, j, code, reason, reaches.tokens, same⟩
    split at h
    · next cause _ missed =>
      cases h
      have inside : (start.moveTo e.pos).InRange := Nat.min_le_right ..
      obtain ⟨j, code, reason, reaches, _, same⟩ := node_built.placed.error inside missed
      rintro e (rfl | caused)
      · exact error
      · cases caused
        exact ⟨node_built.failsOwn missed, j, code, reason, reaches.tokens, same⟩
    · cases h
      rintro e (rfl | caused)
      · exact error
      · cases caused

theorem parseModule_errors_aligned {src : Bytes} (whole : Encoded src) (short : src.length < UInt32.size)
    {failure : Failure} (h : parseModule (tokenize src) = .error failure) :
    ∀ e, e = failure.error ∨ failure.cause = some e → e.span.Aligned src ∧ Encoded e.message := by
  intro e either
  obtain ⟨own, j, code, reason, tokens, rfl⟩ := parseModule_errors h e either
  refine ⟨j.aligned_span whole fun tok member => ?_, own.encoded_message j.encoded_found⟩
  rw [tokens, List.mem_toArray] at member
  exact (Token.tokenize_aligned whole short member).2

end LetStack.Grammar
