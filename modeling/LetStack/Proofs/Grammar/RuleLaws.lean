import Mathlib.Data.List.Basic
import LetStack.Grammar.Rule

/-!
The combinators of `Rule` over the tokens that a position has not read. `Sound` relates the tokens that a match reads
to its value; `Yields` and `Misses` say how a rule ends on given tokens. With one law for each combinator, grammars
are read off without positions and failures.
-/

namespace LetStack.Grammar

/-! ## Positions as unread tokens -/

namespace Input

def unread (i : Input) : List Token := i.tokens.toList.drop i.pos

theorem peek?_eq_head? (i : Input) : i.peek? = i.unread.head? := by
  rw [peek?, unread, List.head?_drop, Array.getElem?_toList]

theorem left_eq_length (i : Input) : i.left = i.unread.length := by
  rw [left, unread, List.length_drop, Array.length_toList]

theorem atEnd_iff (i : Input) : i.atEnd = true ↔ i.unread = [] := by
  rw [atEnd, unread, decide_eq_true_iff, List.drop_eq_nil_iff, Array.length_toList]

theorem unread_advance (i : Input) : i.advance.unread = i.unread.tail := by
  simp only [advance, unread, List.tail_drop]
  split
  · rfl
  · rename_i h
    rw [List.drop_eq_nil_of_le (by rw [Array.length_toList]; omega),
      List.drop_eq_nil_of_le (by rw [Array.length_toList]; omega)]

end Input

namespace Rule

variable {α β : Type}

/-! ## What a match means -/

/-- Every match reads tokens that stand in a relation with its value. -/
def Sound (r : Rule α) (P : List Token → α → Prop) : Prop :=
  ∀ ⦃i a j⦄, r i = .ok (a, j) → ∃ w, i.unread = w ++ j.unread ∧ P w a

variable {r : Rule α} {P : List Token → α → Prop} {tok : Token} {i : Input} {Q : List Token → β → Prop} {s : Rule β}
  {ts rest mid : List Token}

theorem Sound.mono {Q : List Token → α → Prop} (h : Sound r P) (hPQ : ∀ w a, P w a → Q w a) : Sound r Q := by
  intro i a j hr
  obtain ⟨w, hw, hP⟩ := h hr
  exact ⟨w, hw, hPQ w a hP⟩

theorem unread_of_peek (h : i.peek? = some tok) : i.unread = [tok] ++ i.advance.unread := by
  rw [Input.peek?_eq_head?] at h
  rw [Input.unread_advance]
  cases hu : i.unread with
  | nil => rw [hu] at h; cases h
  | cons t ts => rw [hu] at h; cases h; rfl

theorem tag_sound (kind : Token.Kind) :
    Sound (tag kind) fun w tok => w = [tok] ∧ tok.kind = kind := by
  intro i tok j h
  unfold tag at h
  split at h
  · next t ht =>
    split at h
    · next hk => cases h; exact ⟨[tok], unread_of_peek ht, rfl, hk⟩
    · cases h
  · cases h

theorem oneOf_sound (kinds : List Token.Kind) :
    Sound (oneOf kinds) fun w tok => w = [tok] ∧ tok.kind ∈ kinds := by
  intro i tok j h
  unfold oneOf at h
  split at h
  · next t ht =>
    split at h
    · next hk => cases h; exact ⟨[tok], unread_of_peek ht, rfl, hk⟩
    · cases h
  · cases h

theorem Sound.map {r : Rule α} {f : α → β} {P : List Token → α → Prop} {Q : List Token → β → Prop}
    (h : Sound r P) (hf : ∀ w a, P w a → Q w (f a)) : Sound (Rule.map r f) Q := by
  intro i b j hr
  unfold Rule.map at hr
  split at hr
  · next a j' ha =>
    cases hr
    obtain ⟨w, hw, hP⟩ := h ha
    exact ⟨w, hw, hf w a hP⟩
  · cases hr

theorem Sound.pair (hr : Sound r P) (hs : Sound s Q) :
    Sound (Rule.pair r s) fun w p => ∃ u v, w = u ++ v ∧ P u p.1 ∧ Q v p.2 := by
  intro i p j h
  unfold Rule.pair at h
  split at h
  · cases h
  · next a m ha =>
    split at h
    · cases h
    · next b k hb =>
      cases h
      obtain ⟨u, hu, hP⟩ := hr ha
      obtain ⟨v, hv, hQ⟩ := hs hb
      exact ⟨u ++ v, by rw [hu, hv, List.append_assoc], u, v, rfl, hP, hQ⟩

theorem Sound.preceded (hr : Sound r P) (hs : Sound s Q) :
    Sound (Rule.preceded r s) fun w b => ∃ u v a, w = u ++ v ∧ P u a ∧ Q v b := by
  refine (hr.pair hs).map ?_
  rintro w ⟨a, b⟩ ⟨u, v, rfl, hP, hQ⟩
  exact ⟨u, v, a, rfl, hP, hQ⟩

theorem Sound.terminated (hr : Sound r P) (hs : Sound s Q) :
    Sound (Rule.terminated r s) fun w a => ∃ u v b, w = u ++ v ∧ P u a ∧ Q v b := by
  refine (hr.pair hs).map ?_
  rintro w ⟨a, b⟩ ⟨u, v, rfl, hP, hQ⟩
  exact ⟨u, v, b, rfl, hP, hQ⟩

theorem firstOf_sound {rules : List (Rule α)} (h : ∀ r ∈ rules, Sound r P) (best : Option Error) :
    Sound (firstOf best rules) P := by
  induction rules generalizing best with
  | nil => intro i a j hr; cases hr
  | cons r rules ih =>
    intro i a j hr
    unfold firstOf at hr
    split at hr
    · next v hv => cases hr; exact h r List.mem_cons_self hv
    · split at hr
      · exact ih (fun s hs => h s (List.mem_cons_of_mem _ hs)) _ hr
      · cases hr

theorem alt_sound {rules : List (Rule α)} (h : rules.Forall (Sound · P)) : Sound (alt rules) P :=
  firstOf_sound (List.forall_iff_forall_mem.1 h) none

/-- Words one after another, each in a relation with one of the values. -/
def Repeated (P : List Token → α → Prop) : List Token → List α → Prop
  | w, [] => w = []
  | w, a :: as => ∃ u v, w = u ++ v ∧ P u a ∧ Repeated P v as

theorem Sound.many0 (h : Sound r P) : Sound (Rule.many0 r) (Repeated P) := by
  intro i as j hr
  unfold Rule.many0 at hr
  fun_induction many r i generalizing as j with
  | case1 i => cases hr; exact ⟨[], rfl, rfl⟩
  | case2 i _ e _ => cases hr; exact ⟨[], rfl, rfl⟩
  | case3 => cases hr
  | case4 => cases hr
  | case5 i _ a m ha _ bs k hbs ih =>
    cases hr
    obtain ⟨u, hu, hP⟩ := h ha
    obtain ⟨v, hv, hQ⟩ := ih hbs
    exact ⟨u ++ v, by rw [hu, hv, List.append_assoc], u, v, rfl, hP, hQ⟩
  | case6 i => cases hr; exact ⟨[], rfl, rfl⟩

theorem Sound.opt (h : Sound r P) : Sound (Rule.opt r) fun w o => (o = none ∧ w = []) ∨ ∃ a, o = some a ∧ P w a := by
  intro i o j hr
  unfold Rule.opt at hr
  split at hr
  · next a k ha =>
    cases hr
    obtain ⟨w, hw, hP⟩ := h ha
    exact ⟨w, hw, .inr ⟨a, rfl, hP⟩⟩
  · split at hr
    · cases hr; exact ⟨[], rfl, .inl ⟨rfl, rfl⟩⟩
    · cases hr

theorem Sound.label (h : Sound r P) (what : Bytes) (code : Code) : Sound (Rule.label r what code) P := by
  intro i a j hr
  unfold Rule.label at hr
  split at hr
  · next v hv => cases hr; exact h hv
  · split at hr <;> cases hr

theorem unimplemented_sound (trigger : Rule α) (feature : Bytes) (P : List Token → β → Prop) :
    Sound (unimplemented trigger feature) P := by
  intro i a j hr
  unfold unimplemented at hr
  split at hr <;> cases hr

theorem allConsuming_eq_ok {j : Input} {a : α} : allConsuming r i = .ok (a, j) ↔ r i = .ok (a, j) ∧ j.unread = [] := by
  unfold allConsuming
  constructor
  · intro h
    split at h
    · cases h
    · split at h
      · next hr hend => cases h; exact ⟨hr, j.atEnd_iff.1 hend⟩
      · cases h
  · rintro ⟨hr, hend⟩
    simp only [hr, j.atEnd_iff.2 hend, if_true]

/-! ## How a rule ends on given tokens -/

/-- On the tokens `ts` the rule yields a value with a property and leaves the tokens `rest`. -/
def Yields (r : Rule α) (ts : List Token) (Q : α → Prop) (rest : List Token) : Prop :=
  ∀ i : Input, i.unread = ts → ∃ a j, r i = .ok (a, j) ∧ j.unread = rest ∧ Q a

/-- On the tokens `ts` the rule does not match, and other alternatives may be tried. -/
def Misses (r : Rule α) (ts : List Token) : Prop :=
  ∀ i : Input, i.unread = ts → ∃ e, r i = .error e ∧ e.isMismatch = true

/-- The first token is of none of the kinds, or there is none. -/
def HeadNotIn (kinds : List Token.Kind) (ts : List Token) : Prop :=
  ∀ tok ∈ ts.head?, tok.kind ∉ kinds

theorem Yields.mono {P Q : α → Prop} (h : r.Yields ts P rest) (hPQ : ∀ a, P a → Q a) : r.Yields ts Q rest := by
  intro i hi
  obtain ⟨a, j, hr, hj, hP⟩ := h i hi
  exact ⟨a, j, hr, hj, hPQ a hP⟩

theorem peek?_of_unread (h : i.unread = tok :: ts) : i.peek? = some tok ∧ i.advance.unread = ts := by
  rw [Input.peek?_eq_head?, Input.unread_advance, h]
  exact ⟨rfl, rfl⟩

theorem oneOf_yields {kinds : List Token.Kind} (h : tok.kind ∈ kinds) :
    (oneOf kinds).Yields (tok :: ts) (· = tok) ts := by
  intro i hi
  obtain ⟨hp, ha⟩ := peek?_of_unread hi
  refine ⟨tok, i.advance, ?_, ha, rfl⟩
  simp only [oneOf, hp, if_pos h]

theorem oneOf_misses {kinds : List Token.Kind} (h : HeadNotIn kinds ts) : (oneOf kinds).Misses ts := by
  intro i hi
  have hp : i.peek? = ts.head? := by rw [Input.peek?_eq_head?, hi]
  cases hh : ts.head? with
  | none => exact ⟨_, by simp only [oneOf, hp, hh]; rfl, rfl⟩
  | some tok => exact ⟨_, by simp only [oneOf, hp, hh, if_neg (h tok hh)]; rfl, rfl⟩

theorem tag_yields {kind : Token.Kind} (h : tok.kind = kind) : (tag kind).Yields (tok :: ts) (· = tok) ts := by
  intro i hi
  obtain ⟨hp, ha⟩ := peek?_of_unread hi
  refine ⟨tok, i.advance, ?_, ha, rfl⟩
  simp only [tag, hp, if_pos h]

theorem tag_misses {kind : Token.Kind} (h : HeadNotIn [kind] ts) : (tag kind).Misses ts := by
  intro i hi
  have hp : i.peek? = ts.head? := by rw [Input.peek?_eq_head?, hi]
  cases hh : ts.head? with
  | none => exact ⟨_, by simp only [tag, hp, hh]; rfl, rfl⟩
  | some tok =>
    have hk : ¬tok.kind = kind := fun hk => h tok hh (by rw [hk]; exact List.mem_cons_self)
    exact ⟨_, by simp only [tag, hp, hh, if_neg hk]; rfl, rfl⟩

theorem Yields.map {r : Rule α} {f : α → β} {ts rest : List Token} {P : α → Prop} {Q : β → Prop}
    (h : r.Yields ts P rest) (hf : ∀ a, P a → Q (f a)) : (Rule.map r f).Yields ts Q rest := by
  intro i hi
  obtain ⟨a, j, hr, hj, hP⟩ := h i hi
  exact ⟨f a, j, by simp only [Rule.map, hr], hj, hf a hP⟩

theorem Misses.map {r : Rule α} {ts : List Token} (h : r.Misses ts) (f : α → β) :
    (Rule.map r f).Misses ts := by
  intro i hi
  obtain ⟨e, hr, he⟩ := h i hi
  exact ⟨e, by simp only [Rule.map, hr], he⟩

theorem Yields.pair {P : α → Prop} {Q : β → Prop} (hr : r.Yields ts P mid) (hs : s.Yields mid Q rest) :
    (Rule.pair r s).Yields ts (fun p => P p.1 ∧ Q p.2) rest := by
  intro i hi
  obtain ⟨a, j, ha, hj, hP⟩ := hr i hi
  obtain ⟨b, k, hb, hk, hQ⟩ := hs j hj
  exact ⟨(a, b), k, by simp only [Rule.pair, ha, hb], hk, hP, hQ⟩

theorem Misses.pair (h : r.Misses ts) (s : Rule β) : (Rule.pair r s).Misses ts := by
  intro i hi
  obtain ⟨e, hr, he⟩ := h i hi
  exact ⟨e, by simp only [Rule.pair, hr], he⟩

theorem Yields.pair_misses {P : α → Prop} (hr : r.Yields ts P mid) (hs : s.Misses mid) : (Rule.pair r s).Misses ts := by
  intro i hi
  obtain ⟨a, j, ha, hj, _⟩ := hr i hi
  obtain ⟨e, hb, he⟩ := hs j hj
  exact ⟨e, by simp only [Rule.pair, ha, hb], he⟩

theorem Yields.firstOf {P : α → Prop} (h : r.Yields ts P rest) (best : Option Error) (rules : List (Rule α)) :
    (Rule.firstOf best (r :: rules)).Yields ts P rest := by
  intro i hi
  obtain ⟨a, j, hr, hj, hP⟩ := h i hi
  exact ⟨a, j, by simp only [Rule.firstOf, hr], hj, hP⟩

theorem Misses.firstOf_yields {rules : List (Rule α)} {P : α → Prop} (h : r.Misses ts)
    (hs : ∀ best, (Rule.firstOf best rules).Yields ts P rest) (best : Option Error) :
    (Rule.firstOf best (r :: rules)).Yields ts P rest := by
  intro i hi
  obtain ⟨e, hr, he⟩ := h i hi
  obtain ⟨a, j, hs, hj, hP⟩ := hs (some ((best.map (·.furthest e.unwrapped)).getD e.unwrapped)) i hi
  exact ⟨a, j, by simp only [Rule.firstOf, hr, he, if_true, hs], hj, hP⟩

theorem alt_yields {before after : List (Rule α)} {P : α → Prop} (hb : ∀ s ∈ before, s.Misses ts)
    (h : r.Yields ts P rest) : (alt (before ++ r :: after)).Yields ts P rest := by
  suffices ∀ best, (firstOf best (before ++ r :: after)).Yields ts P rest from this none
  induction before with
  | nil => exact fun best => h.firstOf best after
  | cons s before ih =>
    exact (hb s List.mem_cons_self).firstOf_yields
      (ih fun s' hs' => hb s' (List.mem_cons_of_mem _ hs'))

theorem alt_misses {rules : List (Rule α)} (h : ∀ r ∈ rules, r.Misses ts) : (alt rules).Misses ts := by
  suffices ∀ best : Option Error, (∀ e, best = some e → e.isMismatch = true) →
      (firstOf best rules).Misses ts from this none (fun e he => by cases he)
  induction rules with
  | nil =>
    intro best hbest i hi
    cases best with
    | none => exact ⟨_, rfl, rfl⟩
    | some e => exact ⟨e, rfl, hbest e rfl⟩
  | cons r rules ih =>
    intro best hbest i hi
    obtain ⟨e, hr, he⟩ := h r List.mem_cons_self i hi
    have taken : e.unwrapped.isMismatch = true := e.unwrapped_isMismatch.trans he
    have hnext : ∀ e', some ((best.map (·.furthest e.unwrapped)).getD e.unwrapped) = some e' → e'.isMismatch = true := by
      intro e' he'
      cases he'
      cases best with
      | none => exact taken
      | some b => exact furthest_isMismatch (hbest b rfl) taken
    obtain ⟨e', hs, he'⟩ := ih (fun s hs => h s (List.mem_cons_of_mem _ hs)) _ hnext i hi
    exact ⟨e', by simp only [firstOf, hr, he, if_true, hs], he'⟩
where
  furthest_isMismatch {a b : Error} (ha : a.isMismatch = true) (hb : b.isMismatch = true) :
      (a.furthest b).isMismatch = true := by
    unfold Error.furthest
    split
    · exact hb
    · split
      · exact ha
      · rfl

theorem many0_stops (h : ts = [] ∨ r.Misses ts) : (Rule.many0 r).Yields ts (· = []) ts := by
  intro i hi
  refine ⟨[], i, ?_, hi, rfl⟩
  unfold Rule.many0 many
  by_cases hend : i.atEnd = true
  · rw [if_pos hend]
  · rw [if_neg hend]
    rcases h with h | h
    · exact absurd (i.atEnd_iff.2 (hi.trans h)) hend
    · obtain ⟨e, hr, he⟩ := h i hi
      simp only [hr, he, if_true]

theorem many0_goes_on {P : α → Prop} {Q : List α → Prop} (hr : r.Yields ts P mid) (hlt : mid.length < ts.length)
    (hrest : (Rule.many0 r).Yields mid Q rest) :
    (Rule.many0 r).Yields ts (fun as => ∃ b bs, as = b :: bs ∧ P b ∧ Q bs) rest := by
  intro i hi
  obtain ⟨a, j, ha, hj, hP⟩ := hr i hi
  obtain ⟨bs, k, hbs, hk, hQ⟩ := hrest j hj
  refine ⟨a :: bs, k, ?_, hk, a, bs, rfl, hP, hQ⟩
  unfold Rule.many0 many
  have hne : ¬i.atEnd = true := by
    rw [i.atEnd_iff, hi]
    rintro rfl
    exact absurd hlt (Nat.not_lt_zero _)
  have hleft : j.left < i.left := by rw [j.left_eq_length, i.left_eq_length, hi, hj]; exact hlt
  rw [if_neg hne]
  simp only [ha, if_pos hleft]
  rw [show many r j = .ok (bs, k) from hbs]

/-- A repetition that matched is one match and a repetition behind it. -/
theorem Yields.pair_of_many0 {P : List α → Prop} (h : (Rule.many0 r).Yields ts P rest) (hP : ¬P []) :
    (Rule.pair r (Rule.many0 r)).Yields ts (fun p => P (p.1 :: p.2)) rest := by
  intro i hi
  obtain ⟨as, j, has, hj, hQ⟩ := h i hi
  unfold Rule.many0 many at has
  split at has
  · cases has; exact absurd hQ hP
  · split at has
    · split at has
      · cases has; exact absurd hQ hP
      · cases has
    · next a m ha =>
      split at has
      · split at has
        · cases has
        · next bs k hbs =>
          cases has
          refine ⟨(a, bs), j, ?_, hj, hQ⟩
          simp only [Rule.pair, ha, show Rule.many0 r m = .ok (bs, j) from hbs]
      · cases has; exact absurd hQ hP

theorem Yields.opt {P : α → Prop} (h : r.Yields ts P rest) :
    (Rule.opt r).Yields ts (fun o => ∃ a, o = some a ∧ P a) rest := by
  intro i hi
  obtain ⟨a, j, hr, hj, hP⟩ := h i hi
  exact ⟨some a, j, by simp only [Rule.opt, hr], hj, a, rfl, hP⟩

theorem Misses.opt (h : r.Misses ts) : (Rule.opt r).Yields ts (· = none) ts := by
  intro i hi
  obtain ⟨e, hr, he⟩ := h i hi
  exact ⟨none, i, by simp only [Rule.opt, hr, he, if_true], hi, rfl⟩

theorem Yields.label {P : α → Prop} (h : r.Yields ts P rest) (what : Bytes) (code : Code) :
    (Rule.label r what code).Yields ts P rest := by
  intro i hi
  obtain ⟨a, j, hr, hj, hP⟩ := h i hi
  exact ⟨a, j, by simp only [Rule.label, hr], hj, hP⟩

theorem Misses.label (h : r.Misses ts) (what : Bytes) (code : Code) : (Rule.label r what code).Misses ts := by
  intro i hi
  obtain ⟨e, hr, he⟩ := h i hi
  simp only [Rule.label, hr]
  split
  · exact ⟨_, rfl, rfl⟩
  · exact ⟨e, rfl, he⟩

theorem Misses.unimplemented {trigger : Rule α} (h : trigger.Misses ts) (feature : Bytes) :
    (Rule.unimplemented trigger feature : Rule β).Misses ts := by
  intro i hi
  obtain ⟨e, hr, he⟩ := h i hi
  exact ⟨e, by simp only [Rule.unimplemented, hr], he⟩

end Rule

end LetStack.Grammar
