import LetStack.Proofs.Grammar.RuleLaws
import LetStack.Proofs.Grammar.Places

/-!
Rules that fail at a form without grammar, where `alt` tries nothing else. `Cuts` says where a rule fails so on given
tokens, and `Fatal` what the tokens are whenever it does, with one law for each combinator.
-/

namespace LetStack.Grammar

theorem Input.Reaches.pos_eq {i j : Input} (h : i.Reaches j) {u : List Token} (split : i.unread = u ++ j.unread) :
    j.pos = i.pos + u.length := by
  have lengths := congrArg List.length split
  rw [List.length_append, Input.unread, Input.unread, List.length_drop, List.length_drop, h.tokens,
    Array.length_toList] at lengths
  have := h.forward
  have := h.inside
  omega

namespace Rule

variable {α β : Type}

/-! ## Rules that end at a form without grammar -/

/-- On the tokens `w ++ rest` the rule fails at a form without grammar, right behind `w`. -/
def Cuts (r : Rule α) (w rest : List Token) : Prop :=
  ∀ i : Input, i.InRange → i.unread = w ++ rest → ∃ e feature, r i = .error e ∧
    e.reason = .unimplemented feature ∧ e.pos = i.pos + w.length

theorem not_mismatch {e : Error} {feature : Bytes} (h : e.reason = .unimplemented feature) :
    ¬e.isMismatch = true := by
  rw [Error.isMismatch, h]
  exact Bool.false_ne_true

section
variable {r : Rule α} {w rest : List Token}

theorem unimplemented_cuts {ts rest : List Token} {P : α → Prop} (h : r.Yields ts P rest) (feature : Bytes) :
    (unimplemented r feature : Rule β).Cuts [] ts := by
  intro i _ hi
  obtain ⟨a, j, hr, _, _⟩ := h i hi
  exact ⟨_, feature, by simp only [unimplemented, hr]; rfl, rfl, rfl⟩

theorem Cuts.map (h : r.Cuts w rest) (f : α → β) : (Rule.map r f).Cuts w rest := by
  intro i inside hi
  obtain ⟨e, feature, hr, he⟩ := h i inside hi
  exact ⟨e, feature, by simp only [Rule.map, hr], he⟩

theorem Cuts.pair (h : r.Cuts w rest) (s : Rule β) : (Rule.pair r s).Cuts w rest := by
  intro i inside hi
  obtain ⟨e, feature, hr, he⟩ := h i inside hi
  exact ⟨e, feature, by simp only [Rule.pair, hr], he⟩

theorem Cuts.opt (h : r.Cuts w rest) : (Rule.opt r).Cuts w rest := by
  intro i inside hi
  obtain ⟨e, feature, hr, reason, pos⟩ := h i inside hi
  exact ⟨e, feature, by simp only [Rule.opt, hr, if_neg (not_mismatch reason)], reason, pos⟩

theorem Cuts.label (h : r.Cuts w rest) (what : Bytes) (code : Code) : (Rule.label r what code).Cuts w rest := by
  intro i inside hi
  obtain ⟨e, feature, hr, reason, pos⟩ := h i inside hi
  have kept : ¬(e.isMismatch = true ∧ e.pos = i.pos) := fun both => not_mismatch reason both.1
  exact ⟨e, feature, by simp only [Rule.label, hr, if_neg kept], reason, pos⟩

theorem Cuts.firstOf (h : r.Cuts w rest) (best : Option Error) (rules : List (Rule α)) :
    (Rule.firstOf best (r :: rules)).Cuts w rest := by
  intro i inside hi
  obtain ⟨e, feature, hr, reason, pos⟩ := h i inside hi
  exact ⟨e, feature, by simp [Rule.firstOf, hr, not_mismatch reason], reason, pos⟩

theorem Misses.firstOf_cuts {rules : List (Rule α)} (h : r.Misses (w ++ rest))
    (hs : ∀ best, (Rule.firstOf best rules).Cuts w rest) (best : Option Error) :
    (Rule.firstOf best (r :: rules)).Cuts w rest := by
  intro i inside hi
  obtain ⟨e, hr, he⟩ := h i hi
  obtain ⟨e', feature, cut, reason, pos⟩ := hs (some ((best.map (·.furthest e.unwrapped)).getD e.unwrapped)) i inside hi
  exact ⟨e', feature, by simp only [Rule.firstOf, hr, he, if_true, cut], reason, pos⟩

theorem alt_cuts_of_mem {before after : List (Rule α)}
    (each : ∀ s ∈ before, s.Misses (w ++ rest) ∨ s.Cuts w rest) (one : ∃ s ∈ before, s.Cuts w rest) :
    (alt (before ++ after)).Cuts w rest := by
  suffices ∀ best, (firstOf best (before ++ after)).Cuts w rest from this none
  induction before with
  | nil =>
    obtain ⟨s, hs, _⟩ := one
    cases hs
  | cons s before ih =>
    intro best
    obtain ⟨t, ht, cuts⟩ := one
    rcases List.mem_cons.1 ht with rfl | later
    · exact cuts.firstOf best (before ++ after)
    rcases each s (.head _) with misses | cuts'
    · exact misses.firstOf_cuts (ih (fun s hs => each s (.tail _ hs)) ⟨t, later, cuts⟩) best
    · exact cuts'.firstOf best (before ++ after)

theorem alt_cuts {before after : List (Rule α)} (misses : ∀ s ∈ before, s.Misses (w ++ rest)) (h : r.Cuts w rest) :
    (alt (before ++ r :: after)).Cuts w rest := by
  rw [List.append_cons]
  refine alt_cuts_of_mem (fun s hs => ?_) ⟨r, by simp, h⟩
  rcases List.mem_append.1 hs with hs | hs
  · exact .inl (misses s hs)
  · cases List.mem_singleton.1 hs
    exact .inr h

theorem Yields.pair_cuts (built : Built r) {s : Rule β} {u v : List Token} {P : α → Prop}
    (hr : r.Yields (u ++ (v ++ rest)) P (v ++ rest)) (hs : s.Cuts v rest) : (Rule.pair r s).Cuts (u ++ v) rest := by
  intro i inside hi
  rw [List.append_assoc] at hi
  obtain ⟨a, j, matched, hj, _⟩ := hr i hi
  have reaches := built.placed.ok inside matched
  obtain ⟨e, feature, cut, reason, pos⟩ := hs j reaches.inRange hj
  refine ⟨e, feature, by simp only [Rule.pair, matched, cut], reason, ?_⟩
  rw [pos, reaches.pos_eq (hi.trans (by rw [hj])), List.length_append, Nat.add_assoc]

theorem Cuts.many0 (h : r.Cuts w rest) (hne : rest ≠ []) : (Rule.many0 r).Cuts w rest := by
  intro i inside hi
  obtain ⟨e, feature, hr, reason, pos⟩ := h i inside hi
  refine ⟨e, feature, ?_, reason, pos⟩
  have notEnd : ¬i.atEnd = true := by
    rw [i.atEnd_iff, hi]
    simp [hne]
  unfold Rule.many0 many
  rw [if_neg notEnd]
  simp only [hr, if_neg (not_mismatch reason)]

theorem many0_goes_on_cuts (built : Built r) {u v : List Token} {P : α → Prop} (hne : u ≠ [])
    (hr : r.Yields (u ++ (v ++ rest)) P (v ++ rest)) (hs : (Rule.many0 r).Cuts v rest) :
    (Rule.many0 r).Cuts (u ++ v) rest := by
  intro i inside hi
  obtain ⟨e, feature, failed, reason, pos⟩ := hr.pair_cuts built hs i inside hi
  refine ⟨e, feature, ?_, reason, pos⟩
  rw [List.append_assoc] at hi
  obtain ⟨a, j, matched, hj, _⟩ := hr i hi
  have notEnd : ¬i.atEnd = true := by
    rw [i.atEnd_iff, hi]
    simp [hne]
  have progress : j.left < i.left := by
    have read := List.length_pos_iff.2 hne
    rw [j.left_eq_length, i.left_eq_length, hi, hj]
    simpa using read
  unfold Rule.many0 many
  rw [if_neg notEnd]
  simp only [Rule.pair, matched] at failed
  simp only [matched, if_pos progress]
  split at failed
  · next behind =>
    cases failed
    rw [show many r j = .error e from behind]
  · cases failed

end

/-! ## What it means that a rule ends there -/

/-- Whenever the rule fails and no other alternative may be tried, the tokens it was tried at are two
words that stand in a relation: those before the place where it fails and those behind. -/
def Fatal (r : Rule α) (K : List Token → List Token → Prop) : Prop :=
  ∀ ⦃i e⦄, r i = .error e → e.isMismatch = false → ∃ w rest, i.unread = w ++ rest ∧ K w rest

section
variable {r : Rule α} {s : Rule β} {K L M : List Token → List Token → Prop}

theorem tag_fatal (kind : Token.Kind) : Fatal (tag kind) K := by
  intro i e failed fatal
  unfold tag at failed
  split at failed
  · split at failed
    · cases failed
    · cases failed; cases fatal
  · cases failed; cases fatal

theorem oneOf_fatal (kinds : List Token.Kind) : Fatal (oneOf kinds) K := by
  intro i e failed fatal
  unfold oneOf at failed
  split at failed
  · split at failed
    · cases failed
    · cases failed; cases fatal
  · cases failed; cases fatal

theorem Fatal.mono (h : Fatal r K) (hKL : ∀ w rest, K w rest → L w rest) : Fatal r L := by
  intro i e failed fatal
  obtain ⟨w, rest, split, hK⟩ := h failed fatal
  exact ⟨w, rest, split, hKL w rest hK⟩

theorem Fatal.map (h : Fatal r K) (f : α → β) : Fatal (Rule.map r f) K := by
  intro i e failed fatal
  unfold Rule.map at failed
  split at failed
  · cases failed
  · next error => cases failed; exact h error fatal

theorem Fatal.pair {P : List Token → α → Prop} (hr : Fatal r M) (sound : Sound r P) (hs : Fatal s K)
    (second : ∀ u v rest a, P u a → K v rest → M (u ++ v) rest) : Fatal (Rule.pair r s) M := by
  intro i e failed fatal
  unfold Rule.pair at failed
  split at failed
  · next error => cases failed; exact hr error fatal
  · next a j matched =>
    split at failed
    · next error =>
      cases failed
      obtain ⟨u, hu, hP⟩ := sound matched
      obtain ⟨v, rest, hv, hK⟩ := hs error fatal
      exact ⟨u ++ v, rest, by rw [hu, hv, List.append_assoc], second u v rest a hP hK⟩
    · cases failed

theorem Fatal.pair_of_first (hr : Fatal r K) (hs : Fatal s fun _ _ => False) : Fatal (Rule.pair r s) K := by
  intro i e failed fatal
  unfold Rule.pair at failed
  split at failed
  · next error => cases failed; exact hr error fatal
  · split at failed
    · next error =>
      cases failed
      obtain ⟨_, _, _, impossible⟩ := hs error fatal
      exact impossible.elim
    · cases failed

theorem Fatal.many0 {P : List Token → α → Prop} (h : Fatal r K) (sound : Sound r P)
    (behind : ∀ u as v rest, Repeated P u as → K v rest → M (u ++ v) rest) : Fatal (Rule.many0 r) M := by
  suffices Fatal (Rule.many0 r) fun w rest => ∃ u as v, w = u ++ v ∧ Repeated P u as ∧ K v rest by
    refine this.mono ?_
    rintro w rest ⟨u, as, v, rfl, read, hK⟩
    exact behind u as v rest read hK
  intro i e failed fatal
  unfold Rule.many0 at failed
  fun_induction many r i with
  | case1 => cases failed
  | case2 => cases failed
  | case3 i _ e' error _ =>
    cases failed
    obtain ⟨w, rest, split, hK⟩ := h error fatal
    exact ⟨w, rest, split, [], [], w, rfl, rfl, hK⟩
  | case4 i _ a j matched _ e' error ih =>
    cases failed
    obtain ⟨u, hu, hP⟩ := sound matched
    obtain ⟨w, rest, split, u', as, v, rfl, read, hK⟩ := ih error
    refine ⟨u ++ (u' ++ v), rest, ?_, u ++ u', a :: as, v, ?_, ⟨u, u', rfl, hP, read⟩, hK⟩
    · rw [hu, split, List.append_assoc u]
    · rw [List.append_assoc]
  | case5 => cases failed
  | case6 => cases failed

theorem Fatal.opt (h : Fatal r K) : Fatal (Rule.opt r) K := by
  intro i e failed fatal
  unfold Rule.opt at failed
  split at failed
  · cases failed
  · next error =>
    split at failed
    · cases failed
    · cases failed; exact h error fatal

theorem Fatal.label (h : Fatal r K) (what : Bytes) (code : Code) : Fatal (Rule.label r what code) K := by
  intro i e failed fatal
  unfold Rule.label at failed
  split at failed
  · cases failed
  · next error =>
    split at failed
    · cases failed; cases fatal
    · cases failed; exact h error fatal

theorem alt_fatal {rules : List (Rule α)} (h : rules.Forall (Fatal · K)) : Fatal (alt rules) K := by
  rw [List.forall_iff_forall_mem] at h
  suffices ∀ best : Option Error, (∀ e, best = some e → e.isMismatch = true) → Fatal (firstOf best rules) K from
    this none nofun
  induction rules with
  | nil =>
    intro best hbest i e failed fatal
    cases best with
    | none => cases failed; cases fatal
    | some b =>
      cases failed
      exact absurd (hbest b rfl) (Bool.eq_false_iff.1 fatal)
  | cons r rules ih =>
    intro best hbest i e failed fatal
    unfold firstOf at failed
    split at failed
    · cases failed
    · next e' error =>
      split at failed
      · next mismatch =>
        refine ih (fun s hs => h s (.tail _ hs)) _ ?_ failed fatal
        have taken : e'.unwrapped.isMismatch = true := e'.unwrapped_isMismatch.trans mismatch
        rintro _ ⟨⟩
        cases best with
        | none => exact taken
        | some b => exact alt_misses.furthest_isMismatch (hbest b rfl) taken
      · cases failed
        exact h r (.head _) error fatal

theorem unimplemented_fatal {P : List Token → α → Prop} (h : Fatal r K) (sound : Sound r P) (feature : Bytes)
    (trigger : ∀ u rest a, P u a → K [] (u ++ rest)) : Fatal (unimplemented r feature : Rule β) K := by
  intro i e failed fatal
  unfold unimplemented at failed
  split at failed
  · next error => cases failed; exact h error fatal
  · next v matched =>
    obtain ⟨u, hu, hP⟩ := sound matched
    exact ⟨[], u ++ v.2.unread, hu, trigger u v.2.unread v.1 hP⟩

end

end Rule

end LetStack.Grammar
