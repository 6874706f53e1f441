import LetStack.Proofs.Grammar.CutLaws
import LetStack.Proofs.Grammar.Stopping

/-!
Where rules mismatch. `GivesUp` says what was read whenever a rule mismatches, `Attains` and `Passes` how far it gets
at least on given tokens. One law for each combinator: `alt` keeps the failure that got furthest, while `many0` and
`opt` forget the failures that they end with.
-/

namespace LetStack.Grammar

theorem Error.furthest_pos (a b : Error) : (a.furthest b).pos = max a.pos b.pos := by
  unfold furthest
  split
  · next behind => exact (Nat.max_eq_right (Nat.le_of_lt behind)).symm
  split
  · next before => exact (Nat.max_eq_left (Nat.le_of_lt before)).symm
  · next neither before => exact (Nat.max_eq_left (Nat.le_of_not_lt neither)).symm

theorem Input.Reaches.length_le {i j : Input} (h : i.Reaches j) : j.unread.length ≤ i.unread.length := by
  rw [unread, unread, List.length_drop, List.length_drop, h.tokens]
  exact Nat.sub_le_sub_left h.forward _

theorem Input.Reaches.split {i j : Input} (h : i.Reaches j) : ∃ u, i.unread = u ++ j.unread := by
  refine ⟨i.unread.take (j.pos - i.pos), ?_⟩
  have same : j.unread = i.unread.drop (j.pos - i.pos) := by
    rw [unread, unread, List.drop_drop, h.tokens, Nat.add_sub_cancel' h.forward]
  rw [same, List.take_append_drop]

theorem Input.Reaches.pos_le {i j : Input} (h : i.Reaches j) {w rest : List Token} (hi : i.unread = w ++ rest)
    (read : j.unread.length ≤ rest.length) : i.pos + w.length ≤ j.pos := by
  have lengths := congrArg List.length hi
  rw [List.length_append, unread, List.length_drop, Array.length_toList] at lengths
  rw [unread, List.length_drop, h.tokens, Array.length_toList] at read
  have := h.forward
  have := h.inside
  omega

namespace Rule

variable {α β : Type}

/-! ## Choices -/

theorem kept_pos (best : Option Error) (e : Error) :
    let kept := (best.map (·.furthest e)).getD e
    e.pos ≤ kept.pos ∧ (∀ b ∈ best, b.pos ≤ kept.pos) ∧ (kept.pos = e.pos ∨ ∃ b ∈ best, b.pos = kept.pos) := by
  cases best with
  | none => exact ⟨Nat.le_refl _, by simp, .inl rfl⟩
  | some b =>
    show e.pos ≤ (b.furthest e).pos ∧ _
    simp only [Option.mem_some_iff, forall_eq', exists_eq_left', Option.map_some, Option.getD_some, Error.furthest_pos]
    exact ⟨Nat.le_max_right .., Nat.le_max_left .., by omega⟩

variable {i : Input} {e : Error} {r : Rule α} {w rest : List Token}

theorem firstOf_error {rules : List (Rule α)} {best : Option Error} (failed : firstOf best rules i = .error e)
    (mismatch : e.isMismatch = true) :
    (∀ r ∈ rules, ∃ e', r i = .error e' ∧ e'.isMismatch = true ∧ e'.pos ≤ e.pos) ∧
      (∀ b ∈ best, b.pos ≤ e.pos) ∧
      ((∃ r ∈ rules, ∃ e', r i = .error e' ∧ e'.isMismatch = true ∧ e'.pos = e.pos) ∨
        (∃ b ∈ best, b.pos = e.pos) ∨ best = none ∧ rules = []) := by
  induction rules generalizing best with
  | nil =>
    cases failed
    cases best with
    | none => exact ⟨by simp, by simp, .inr (.inr ⟨rfl, rfl⟩)⟩
    | some b => exact ⟨by simp, by simp, .inr (.inl ⟨b, rfl, rfl⟩)⟩
  | cons r rules ih =>
    unfold firstOf at failed
    split at failed
    · cases failed
    next e' error =>
    split at failed
    · next missed =>
      obtain ⟨all, bound, reached⟩ := ih failed
      obtain ⟨here, before, kept⟩ := kept_pos best e'.unwrapped
      have bound := bound _ rfl
      refine ⟨?_, fun b hb => Nat.le_trans (before b hb) bound, ?_⟩
      · exact List.forall_mem_cons.2 ⟨⟨e', error, missed, Nat.le_trans here bound⟩, all⟩
      · rcases reached with ⟨s, hs, further⟩ | ⟨_, ⟨⟩, same⟩ | ⟨impossible, _⟩
        · exact .inl ⟨s, .tail _ hs, further⟩
        · rcases kept with first | ⟨b, hb, old⟩
          · exact .inl ⟨r, .head _, e', error, missed, first.symm.trans same⟩
          · exact .inr (.inl ⟨b, hb, old.trans same⟩)
        · cases impossible
    · next fatal =>
      cases failed
      exact absurd mismatch fatal

theorem alt_error {rules : List (Rule α)} (nonempty : rules ≠ []) (failed : alt rules i = .error e)
    (mismatch : e.isMismatch = true) :
    (∀ r ∈ rules, ∃ e', r i = .error e' ∧ e'.isMismatch = true ∧ e'.pos ≤ e.pos) ∧
      ∃ r ∈ rules, ∃ e', r i = .error e' ∧ e'.isMismatch = true ∧ e'.pos = e.pos := by
  obtain ⟨all, _, reached | ⟨_, impossible, _⟩ | ⟨_, empty⟩⟩ := firstOf_error failed mismatch
  · exact ⟨all, reached⟩
  · cases impossible
  · exact absurd empty nonempty

theorem map_error {f : α → β} (failed : Rule.map r f i = .error e) : r i = .error e := by
  unfold Rule.map at failed
  split at failed
  · cases failed
  · next error => cases failed; exact error

/-! ## What was read before a mismatch -/

/-- Whenever the rule mismatches, the tokens from where it was tried to the mismatch satisfy `P`. -/
def GivesUp (r : Rule α) (P : List Token → Prop) : Prop :=
  ∀ ⦃i e⦄, i.InRange → r i = .error e → e.isMismatch = true →
    ∃ w rest, i.unread = w ++ rest ∧ e.pos = i.pos + w.length ∧ P w

section
variable {r : Rule α} {s : Rule β} {P Q R : List Token → Prop}

theorem GivesUp.mono (h : GivesUp r P) (sub : ∀ w, P w → Q w) : GivesUp r Q := by
  intro i e inside failed mismatch
  obtain ⟨w, rest, split, pos, hw⟩ := h inside failed mismatch
  exact ⟨w, rest, split, pos, sub w hw⟩

theorem tag_givesUp (kind : Token.Kind) : GivesUp (tag kind) (· = []) := by
  intro i e _ failed _
  unfold tag at failed
  refine ⟨[], i.unread, rfl, ?_, rfl⟩
  split at failed
  · split at failed
    · cases failed
    · cases failed; rfl
  · cases failed; rfl

theorem oneOf_givesUp (kinds : List Token.Kind) : GivesUp (oneOf kinds) (· = []) := by
  intro i e _ failed _
  unfold oneOf at failed
  refine ⟨[], i.unread, rfl, ?_, rfl⟩
  split at failed
  · split at failed
    · cases failed
    · cases failed; rfl
  · cases failed; rfl

theorem GivesUp.map (h : GivesUp r P) (f : α → β) : GivesUp (Rule.map r f) P := by
  intro i e inside failed mismatch
  exact h inside (map_error failed) mismatch

theorem GivesUp.pair (built : Built r) (hr : GivesUp r R) {S : List Token → α → Prop} (sound : Sound r S)
    (hs : GivesUp s Q) (second : ∀ u v a, S u a → Q v → R (u ++ v)) : GivesUp (Rule.pair r s) R := by
  intro i e inside failed mismatch
  unfold Rule.pair at failed
  split at failed
  · next error => cases failed; exact hr inside error mismatch
  next a j matched =>
  split at failed
  · next error =>
    cases failed
    have reaches := built.placed.ok inside matched
    obtain ⟨u, hu, hS⟩ := sound matched
    obtain ⟨v, rest, hv, pos, hQ⟩ := hs reaches.inRange error mismatch
    refine ⟨u ++ v, rest, by rw [hu, hv, List.append_assoc], ?_, second u v a hS hQ⟩
    rw [pos, reaches.pos_eq hu, List.length_append, Nat.add_assoc]
  · cases failed

theorem opt_error {i : Input} {e : Error} (failed : Rule.opt r i = .error e) : e.isMismatch = false := by
  unfold Rule.opt at failed
  split at failed
  · cases failed
  · split at failed
    · cases failed
    · next fatal => cases failed; exact Bool.eq_false_iff.2 fatal

theorem opt_givesUp (r : Rule α) : GivesUp (Rule.opt r) P := by
  intro i e _ failed mismatch
  rw [opt_error failed] at mismatch
  cases mismatch

theorem GivesUp.pair_total (h : GivesUp r P) (total : ∀ ⦃i e⦄, s i = .error e → e.isMismatch = false) :
    GivesUp (Rule.pair r s) P := by
  intro i e inside failed mismatch
  unfold Rule.pair at failed
  split at failed
  · next error => cases failed; exact h inside error mismatch
  · split at failed
    · next error =>
      cases failed
      rw [total error] at mismatch
      cases mismatch
    · cases failed

theorem GivesUp.label (h : GivesUp r P) (what : Bytes) (code : Code) : GivesUp (Rule.label r what code) P := by
  intro i e inside failed mismatch
  unfold Rule.label at failed
  split at failed
  · cases failed
  next e' error =>
  split at failed
  · next first =>
    cases failed
    obtain ⟨w, rest, split, pos, hw⟩ := h inside error first.1
    exact ⟨w, rest, split, first.2.symm.trans pos, hw⟩
  · cases failed; exact h inside error mismatch

theorem alt_givesUp {rules : List (Rule α)} (nonempty : rules ≠ []) (h : rules.Forall (GivesUp · P)) :
    GivesUp (alt rules) P := by
  intro i e inside failed mismatch
  obtain ⟨_, r, hr, e', error, missed, same⟩ := alt_error nonempty failed mismatch
  rw [← same]
  exact List.forall_iff_forall_mem.1 h r hr inside error missed

theorem GivesUp.unimplemented (h : GivesUp r P) (feature : Bytes) :
    GivesUp (unimplemented r feature : Rule β) P := by
  intro i e inside failed mismatch
  unfold Rule.unimplemented at failed
  split at failed
  · next error => cases failed; exact h inside error mismatch
  · cases failed; cases mismatch

end

/-! ## How far a rule gets -/

/-- A match on the tokens `w ++ rest` has read `w` at least. -/
def Overruns (r : Rule α) (w rest : List Token) : Prop :=
  ∀ ⦃i a j⦄, i.InRange → i.unread = w ++ rest → r i = .ok (a, j) → j.unread.length ≤ rest.length

/-- On the tokens `w ++ rest` the rule reads `w` at least, or mismatches behind it. -/
structure Attains (r : Rule α) (w rest : List Token) : Prop where
  ok : r.Overruns w rest
  error : ∀ ⦃i e⦄, i.InRange → i.unread = w ++ rest → r i = .error e → e.isMismatch = true → i.pos + w.length ≤ e.pos

/-- On the tokens `w ++ rest` the rule reads `w` at least, if it does not end at a form without grammar. -/
structure Passes (r : Rule α) (w rest : List Token) : Prop where
  ok : r.Overruns w rest
  error : ∀ ⦃i e⦄, i.InRange → i.unread = w ++ rest → r i = .error e → e.isMismatch = false

theorem Passes.attains (h : r.Passes w rest) : r.Attains w rest where
  ok := h.ok
  error i e inside hi failed mismatch := by
    rw [h.error inside hi failed] at mismatch
    cases mismatch

theorem Yields.passes {P : α → Prop} (h : r.Yields (w ++ rest) P rest) :
    r.Passes w rest where
  ok i a j _ hi matched := by
    obtain ⟨_, _, matched', left, _⟩ := h i hi
    cases matched.symm.trans matched'
    exact Nat.le_of_eq (congrArg List.length left)
  error i e _ hi failed := by
    obtain ⟨_, _, matched, _⟩ := h i hi
    cases failed.symm.trans matched

theorem Misses.overruns (h : r.Misses (w ++ rest)) : r.Overruns w rest := by
  intro i a j _ hi matched
  obtain ⟨_, failed, _⟩ := h i hi
  cases failed.symm.trans matched

theorem Overruns.map {r : Rule α} {w rest : List Token} (h : r.Overruns w rest) (f : α → β) :
    (Rule.map r f).Overruns w rest := by
  intro i b j inside hi matched
  unfold Rule.map at matched
  split at matched
  · next found => cases matched; exact h inside hi found
  · cases matched

theorem Overruns.label (h : r.Overruns w rest) (what : Bytes) (code : Code) :
    (Rule.label r what code).Overruns w rest := by
  intro i a j inside hi matched
  unfold Rule.label at matched
  split at matched
  · next found => cases matched; exact h inside hi found
  · split at matched <;> cases matched

theorem Overruns.pair {s : Rule β} (h : r.Overruns w rest) (hr : Built r) (hs : Built s) :
    (Rule.pair r s).Overruns w rest := by
  intro i p k inside hi matched
  unfold Rule.pair at matched
  split at matched
  · cases matched
  next a j first =>
  split at matched
  · cases matched
  next b k second =>
  cases matched
  have reaches := hr.placed.ok inside first
  exact Nat.le_trans (hs.placed.ok reaches.inRange second).length_le (h inside hi first)

theorem Yields.pair_overruns {s : Rule β} {u v : List Token} {P : α → Prop} (built : Built r)
    (hr : r.Yields (u ++ (v ++ rest)) P (v ++ rest)) (hs : s.Overruns v rest) :
    (Rule.pair r s).Overruns (u ++ v) rest := by
  intro i p k inside hi matched
  rw [List.append_assoc] at hi
  obtain ⟨a, j, first, hj, _⟩ := hr i hi
  simp only [Rule.pair, first] at matched
  split at matched
  · cases matched
  · next second => cases matched; exact hs (built.placed.ok inside first).inRange hj second

theorem alt_overruns {rules : List (Rule α)} (h : ∀ r ∈ rules, r.Overruns w rest) : (alt rules).Overruns w rest := by
  suffices ∀ best, (firstOf best rules).Overruns w rest from this none
  induction rules with
  | nil =>
    intro best i a j _ _ matched
    cases matched
  | cons r rules ih =>
    intro best i a j inside hi matched
    unfold firstOf at matched
    split at matched
    · next found => cases matched; exact h r (.head _) inside hi found
    · split at matched
      · exact ih (fun s hs => h s (.tail _ hs)) _ inside hi matched
      · cases matched

/-! ## Rules that get to the end of given tokens -/

section
variable {r : Rule α} {s : Rule β} {w rest : List Token}

theorem Built.attains_nil (built : Built r) (rest : List Token) : r.Attains [] rest where
  ok i a j inside hi matched := by
    rw [← List.nil_append rest, ← hi]
    exact (built.placed.ok inside matched).length_le
  error i e inside _ failed _ := by
    obtain ⟨j, _, _, reaches, _, rfl⟩ := built.placed.error inside failed
    exact reaches.forward

theorem Attains.map (h : r.Attains w rest) (f : α → β) : (Rule.map r f).Attains w rest where
  ok := h.ok.map f
  error _ _ inside hi failed mismatch := h.error inside hi (map_error failed) mismatch

theorem Attains.label (h : r.Attains w rest) (what : Bytes) (code : Code) :
    (Rule.label r what code).Attains w rest where
  ok := h.ok.label what code
  error i e inside hi failed mismatch := by
    unfold Rule.label at failed
    split at failed
    · cases failed
    next e' error =>
    split at failed
    · next first =>
      cases failed
      exact Nat.le_trans (h.error inside hi error first.1) (Nat.le_of_eq first.2)
    · cases failed; exact h.error inside hi error mismatch

theorem Attains.pair (h : r.Attains w rest) (hr : Built r) (hs : Built s) : (Rule.pair r s).Attains w rest where
  ok := h.ok.pair hr hs
  error i e inside hi failed mismatch := by
    unfold Rule.pair at failed
    split at failed
    · next error => cases failed; exact h.error inside hi error mismatch
    next a j matched =>
    split at failed
    · next error =>
      cases failed
      have reaches := hr.placed.ok inside matched
      obtain ⟨k, _, _, further, _, rfl⟩ := hs.placed.error reaches.inRange error
      exact Nat.le_trans (reaches.pos_le hi (h.ok inside hi matched)) further.forward
    · cases failed

theorem Yields.pair_attains {u v : List Token} {P : α → Prop} (built : Built r)
    (hr : r.Yields (u ++ (v ++ rest)) P (v ++ rest)) (hs : s.Attains v rest) :
    (Rule.pair r s).Attains (u ++ v) rest where
  ok := hr.pair_overruns built hs.ok
  error i e inside hi failed mismatch := by
    rw [List.append_assoc] at hi
    obtain ⟨a, j, first, hj, _⟩ := hr i hi
    have reaches := built.placed.ok inside first
    simp only [Rule.pair, first] at failed
    split at failed
    · next error =>
      cases failed
      have further := hs.error reaches.inRange hj error mismatch
      rwa [reaches.pos_eq (hi.trans (by rw [hj])), Nat.add_assoc, ← List.length_append] at further
    · cases failed

theorem tag_pair_attains {kind : Token.Kind} {tok : Token} (hk : tok.kind = kind) (h : s.Attains w rest) :
    (Rule.pair (tag kind) s).Attains (tok :: w) rest :=
  Yields.pair_attains (u := [tok]) (.tag kind) (tag_yields hk) h

theorem oneOf_pair_attains {kinds : List Token.Kind} {tok : Token} (hk : tok.kind ∈ kinds) (h : s.Attains w rest) :
    (Rule.pair (oneOf kinds) s).Attains (tok :: w) rest :=
  Yields.pair_attains (u := [tok]) (.oneOf kinds) (oneOf_yields hk) h

theorem alt_attains {rules : List (Rule α)} (one : ∃ r ∈ rules, r.Attains w rest)
    (others : rules.Forall (Overruns · w rest)) : (alt rules).Attains w rest where
  ok := alt_overruns (List.forall_iff_forall_mem.1 others)
  error i e inside hi failed mismatch := by
    obtain ⟨r, hr, attains⟩ := one
    obtain ⟨all, _⟩ := alt_error (List.ne_nil_of_mem hr) failed mismatch
    obtain ⟨e', error, missed, before⟩ := all r hr
    exact Nat.le_trans (attains.error inside hi error missed) before

end

/-! ## Rules that get past given tokens -/

section
variable {r : Rule α} {s : Rule β} {w rest : List Token}

theorem Passes.map (h : r.Passes w rest) (f : α → β) : (Rule.map r f).Passes w rest where
  ok := h.ok.map f
  error _ _ inside hi failed := h.error inside hi (map_error failed)

theorem Passes.label (h : r.Passes w rest) (what : Bytes) (code : Code) : (Rule.label r what code).Passes w rest where
  ok := h.ok.label what code
  error i e inside hi failed := by
    unfold Rule.label at failed
    split at failed
    · cases failed
    next e' error =>
    have fatal := h.error inside hi error
    rw [if_neg (fun both => by rw [fatal] at both; cases both.1)] at failed
    cases failed
    exact fatal

theorem Passes.pair (h : r.Passes w rest) (hr : Built r) (hs : Built s)
    (total : ∀ ⦃i e⦄, s i = .error e → e.isMismatch = false) : (Rule.pair r s).Passes w rest where
  ok := h.ok.pair hr hs
  error i e inside hi failed := by
    unfold Rule.pair at failed
    split at failed
    · next error => cases failed; exact h.error inside hi error
    · split at failed
      · next error => cases failed; exact total error
      · cases failed

theorem Yields.pair_passes {u v : List Token} {P : α → Prop} (built : Built r)
    (hr : r.Yields (u ++ (v ++ rest)) P (v ++ rest)) (hs : s.Passes v rest) : (Rule.pair r s).Passes (u ++ v) rest where
  ok := hr.pair_overruns built hs.ok
  error i e inside hi failed := by
    rw [List.append_assoc] at hi
    obtain ⟨a, j, first, hj, _⟩ := hr i hi
    simp only [Rule.pair, first] at failed
    split at failed
    · next error => cases failed; exact hs.error (built.placed.ok inside first).inRange hj error
    · cases failed

variable {tok : Token}

theorem tag_pair_passes {kind : Token.Kind} (hk : tok.kind = kind) (h : s.Passes w rest) :
    (Rule.pair (tag kind) s).Passes (tok :: w) rest :=
  Yields.pair_passes (u := [tok]) (.tag kind) (tag_yields hk) h

theorem oneOf_pair_passes {kinds : List Token.Kind} (hk : tok.kind ∈ kinds) (h : s.Passes w rest) :
    (Rule.pair (oneOf kinds) s).Passes (tok :: w) rest :=
  Yields.pair_passes (u := [tok]) (.oneOf kinds) (oneOf_yields hk) h

theorem alt_passes {before after : List (Rule α)} (others : ∀ s ∈ before, s.Overruns w rest) (h : r.Passes w rest) :
    (alt (before ++ r :: after)).Passes w rest := by
  suffices ∀ best, (firstOf best (before ++ r :: after)).Passes w rest from this none
  induction before with
  | nil =>
    intro best
    constructor
    · intro i a j inside hi matched
      simp only [List.nil_append, firstOf] at matched
      split at matched
      · next found => cases matched; exact h.ok inside hi found
      · next failed =>
        rw [h.error inside hi failed] at matched
        cases matched
    · intro i e inside hi failed
      simp only [List.nil_append, firstOf] at failed
      split at failed
      · cases failed
      · next error =>
        rw [h.error inside hi error] at failed
        cases failed
        exact h.error inside hi error
  | cons s before ih =>
    have later := ih fun s' hs' => others s' (.tail _ hs')
    intro best
    constructor
    · intro i a j inside hi matched
      simp only [List.cons_append, firstOf] at matched
      split at matched
      · next found => cases matched; exact others s (.head _) inside hi found
      · split at matched
        · exact (later _).ok inside hi matched
        · cases matched
    · intro i e inside hi failed
      simp only [List.cons_append, firstOf] at failed
      split at failed
      · cases failed
      · split at failed
        · exact (later _).error inside hi failed
        · next fatal => cases failed; exact Bool.eq_false_iff.2 fatal

theorem Passes.opt (h : r.Passes w rest) : (Rule.opt r).Passes w rest where
  ok i a j inside hi matched := by
    unfold Rule.opt at matched
    split at matched
    · next found => cases matched; exact h.ok inside hi found
    · next e failed =>
      rw [h.error inside hi failed] at matched
      cases matched
  error _ _ _ _ failed := opt_error failed

theorem many0_passes_nil (built : Built r) (rest : List Token) : (Rule.many0 r).Passes [] rest where
  ok := (built.many0.attains_nil rest).ok
  error _ _ _ _ failed := many0_error failed

theorem many0_step {i j k : Input} {a : α} {as : List α} (read : Rule.many0 r i = .ok (as, k))
    (matched : r i = .ok (a, j)) (progress : j.unread.length < i.unread.length) :
    ∃ bs, Rule.many0 r j = .ok (bs, k) := by
  have notEnd : ¬i.atEnd = true := by
    rw [i.atEnd_iff]
    exact List.ne_nil_of_length_pos (Nat.zero_lt_of_lt progress)
  rw [← j.left_eq_length, ← i.left_eq_length] at progress
  unfold Rule.many0 many at read
  rw [if_neg notEnd] at read
  simp only [matched, if_pos progress] at read
  split at read
  · cases read
  · next bs _ behind => cases read; exact ⟨bs, behind⟩

theorem Passes.many0 (h : r.Passes w rest) (built : Built r) (nonempty : w ≠ []) : (Rule.many0 r).Passes w rest where
  ok i as k inside hi read := by
    have some := List.length_pos_iff.2 nonempty
    have total := congrArg List.length hi
    rw [List.length_append] at total
    cases outcome : r i with
    | error e =>
      have fatal := h.error inside hi outcome
      unfold Rule.many0 many at read
      split at read
      · next atEnd => rw [i.atEnd_iff.1 atEnd, List.length_nil] at total; omega
      · simp [outcome, fatal] at read
    | ok p =>
      have past := h.ok inside hi outcome
      obtain ⟨bs, behind⟩ := many0_step read outcome (by omega)
      have reaches := built.placed.ok inside outcome
      exact Nat.le_trans (built.many0.placed.ok reaches.inRange behind).length_le past
  error _ _ _ _ failed := many0_error failed

theorem Yields.many0_passes {u v : List Token} {P : α → Prop} (built : Built r) (nonempty : u ≠ [])
    (hr : r.Yields (u ++ (v ++ rest)) P (v ++ rest)) (hs : (Rule.many0 r).Passes v rest) :
    (Rule.many0 r).Passes (u ++ v) rest where
  ok i as k inside hi read := by
    rw [List.append_assoc] at hi
    obtain ⟨a, j, matched, hj, _⟩ := hr i hi
    have progress : j.unread.length < i.unread.length := by
      rw [hi, hj]
      exact @List.length_append _ u (v ++ rest) ▸ Nat.lt_add_of_pos_left (List.length_pos_iff.2 nonempty)
    obtain ⟨bs, behind⟩ := many0_step read matched progress
    exact hs.ok (built.placed.ok inside matched).inRange hj behind
  error _ _ _ _ failed := many0_error failed

theorem Passes.pair_opt_tag {kind : Token.Kind} (h : r.Passes w (tok :: rest)) (built : Built r)
    (hk : tok.kind = kind) : (Rule.pair r (Rule.opt (tag kind))).Passes (w ++ [tok]) rest where
  ok i p k inside hi matched := by
    rw [List.append_assoc, List.singleton_append] at hi
    unfold Rule.pair at matched
    split at matched
    · cases matched
    next a j first =>
    have reaches := built.placed.ok inside first
    split at matched
    · cases matched
    next b k second =>
    cases matched
    have further := ((Built.tag kind).opt.placed.ok reaches.inRange second).length_le
    rcases Nat.lt_or_ge j.unread.length (tok :: rest).length with less | all
    · exact Nat.le_trans further (Nat.le_of_lt_succ less)
    · -- the token is left over, and then it is read
      obtain ⟨u, split⟩ := reaches.split
      have length := Nat.le_antisymm (h.ok inside hi first) all
      have left := (List.append_inj' (split.symm.trans hi) length).2
      exact (tag_yields hk).opt.passes.ok reaches.inRange (left.trans (List.singleton_append ..).symm) second
  error i e inside hi failed := by
    rw [List.append_assoc, List.singleton_append] at hi
    exact (h.pair built (Built.tag kind).opt fun _ _ failed => opt_error failed).error inside hi failed

end

end Rule

end LetStack.Grammar
