import LetStack.Proofs.Grammar.Contract
import LetStack.Proofs.Text.Bytes

/-!
The failure of `Rule.alt` when no rule matches. `Error.furthest` merges the failures one after another (`Merges`);
those at one position describe the same token, so the order of the rules shows neither in the position nor in the
message (`Merges.message_eq`).
-/

namespace LetStack.Grammar

/-! ## Messages -/

theorem Error.alternatives_perm {expected others : List Bytes} (h : expected.Perm others) :
    alternatives expected = alternatives others := by
  rw [alternatives, alternatives, Bytes.sort_perm h]

/-- A mismatch, which is not wrapped. -/
def Error.Plain (e : Error) : Prop := e.reason = .mismatch e.expected

theorem Error.plain_unwrapped {e : Error} (h : e.isMismatch = true) : e.unwrapped.Plain := by
  unfold isMismatch at h
  split at h
  · next expected reason =>
    have same : e.unwrapped.reason = .mismatch expected := reason
    rw [Plain, Error.expected, same]
  · cases h

theorem Error.Plain.isMismatch {e : Error} (h : e.Plain) : e.isMismatch = true := by
  rw [Error.isMismatch, h]
  rfl

theorem Error.message_eq {a b : Error} (ha : a.Plain) (hb : b.Plain)
    (found : a.found = b.found) (h : a.expected.Perm b.expected) : a.message = b.message := by
  rw [message, message, ha, hb, found]
  cases ea : a.expected with
  | nil =>
    rw [ea] at h
    rw [h.nil_eq.symm]
  | cons x xs =>
    cases eb : b.expected with
    | nil =>
      rw [eb] at h
      exact absurd (ea.symm.trans h.eq_nil) (List.cons_ne_nil x xs)
    | cons y ys =>
      rw [ea, eb] at h
      simp only [alternatives_perm h]

theorem Error.Ahead.same_place {P : Reason → Prop} {i : Input} {a b : Error} (ha : a.Ahead P i) (hb : b.Ahead P i)
    (h : a.pos = b.pos) : a.span = b.span ∧ a.found = b.found := by
  obtain ⟨j, _, _, reaches, _, rfl⟩ := ha
  obtain ⟨k, _, _, reaches', _, rfl⟩ := hb
  obtain ⟨tokens, pos⟩ := j
  obtain ⟨tokens', pos'⟩ := k
  cases reaches.tokens
  cases reaches'.tokens
  cases h
  exact ⟨rfl, rfl⟩

/-! ## Merging failures -/

/-- `e` stands for the failures: it lies where one of them does and none is further, and it expects, one after
another, what those expect that are as far. -/
structure Error.Merges (errors : List Error) (e : Error) : Prop where
  plain : e.Plain
  bound : ∀ x ∈ errors, x.pos ≤ e.pos
  reached : ∃ x ∈ errors, x.pos = e.pos ∧ x.span = e.span ∧ x.found = e.found
  expected : e.expected = (errors.filter fun x => x.pos = e.pos).flatMap Error.expected

namespace Error.Merges

variable {errors others : List Error} {e e' : Error}

theorem single (h : e.Plain) : Merges [e] e where
  plain := h
  bound := by simp
  reached := ⟨e, by simp⟩
  expected := by simp

theorem furthest (h : Merges errors e) {x : Error} (hx : x.Plain) :
    Merges (errors ++ [x]) (e.furthest x) := by
  obtain ⟨y, hy, place⟩ := h.reached
  unfold Error.furthest
  split
  · next further =>
    have none : errors.filter (fun y => y.pos = x.pos) = [] := by
      refine List.filter_eq_nil_iff.2 fun y hy => ?_
      have := h.bound y hy
      simp only [decide_eq_true_eq]
      omega
    refine ⟨hx, ?_, ⟨x, by simp⟩, by simp [List.filter_append, none]⟩
    intro y hy
    rcases List.mem_append.1 hy with old | new
    · exact Nat.le_trans (h.bound y old) (Nat.le_of_lt further)
    · exact Nat.le_of_eq (List.mem_singleton.1 new ▸ rfl)
  next notFurther =>
  have bound : ∀ y ∈ errors ++ [x], y.pos ≤ e.pos := by
    intro y hy
    rcases List.mem_append.1 hy with old | new
    · exact h.bound y old
    · exact List.mem_singleton.1 new ▸ Nat.le_of_not_lt notFurther
  split
  · next before =>
    have dropped : [x].filter (fun y => y.pos = e.pos) = [] := by simp [Nat.ne_of_lt before]
    refine ⟨h.plain, bound, ⟨y, List.mem_append_left _ hy, place⟩, ?_⟩
    rw [List.filter_append, dropped, List.append_nil]
    exact h.expected
  · next notBefore =>
    have same : x.pos = e.pos := by omega
    refine ⟨rfl, bound, ⟨y, List.mem_append_left _ hy, place⟩, ?_⟩
    show e.expected ++ x.expected = _
    rw [List.filter_append, List.flatMap_append, ← h.expected]
    simp [same]

theorem foldl (h : Merges errors e) (all : ∀ x ∈ others, x.Plain) :
    Merges (errors ++ others) (others.foldl Error.furthest e) := by
  induction others generalizing errors e with
  | nil => rwa [List.append_nil]
  | cons x others ih =>
    obtain ⟨hx, all⟩ := List.forall_mem_cons.1 all
    rw [List.foldl_cons, List.append_cons]
    exact ih (h.furthest hx) all

theorem pos_eq_max? (h : Merges errors e) : (errors.map Error.pos).max? = some e.pos := by
  obtain ⟨x, hx, pos, _⟩ := h.reached
  refine List.max?_eq_some_iff.2 ⟨List.mem_map.2 ⟨x, hx, pos⟩, fun p hp => ?_⟩
  obtain ⟨y, hy, rfl⟩ := List.mem_map.1 hp
  exact h.bound y hy

theorem pos_le (h : Merges errors e) (h' : Merges others e') (perm : errors.Perm others) : e'.pos ≤ e.pos := by
  obtain ⟨x, hx, pos, _⟩ := h'.reached
  exact pos ▸ h.bound x (perm.mem_iff.2 hx)

/-- The order of the failures does not show in the place and in the message of what stands for them, if those at one
position describe the same token. -/
theorem message_eq (h : Merges errors e) (h' : Merges others e') (perm : errors.Perm others)
    (place : ∀ x ∈ errors, ∀ y ∈ errors, x.pos = y.pos → x.span = y.span ∧ x.found = y.found) :
    e'.pos = e.pos ∧ e'.span = e.span ∧ e'.found = e.found ∧ e'.message = e.message := by
  have pos : e'.pos = e.pos := Nat.le_antisymm (h.pos_le h' perm) (h'.pos_le h perm.symm)
  obtain ⟨x, hx, xpos, xspan, xfound⟩ := h.reached
  obtain ⟨y, hy, ypos, yspan, yfound⟩ := h'.reached
  obtain ⟨span, found⟩ := place y (perm.mem_iff.2 hy) x hx (by rw [xpos, ypos, pos])
  have expected : e'.expected.Perm e.expected := by
    rw [h.expected, h'.expected, pos]
    exact ((perm.symm.filter _).flatMap_right _)
  have sameFound : e'.found = e.found := by rw [← xfound, ← yfound, found]
  refine ⟨pos, by rw [← xspan, ← yspan, span], sameFound, ?_⟩
  exact Error.message_eq h'.plain h.plain sameFound expected

end Error.Merges

/-! ## Choices -/

namespace Rule

variable {α : Type}

/-- Why the rule fails at a position, none where it matches. -/
def failure? (i : Input) (r : Rule α) : Option Error :=
  match r i with
  | .ok _ => none
  | .error e => some e

/-- The rule mismatches at the position. -/
def Mismatches (i : Input) (r : Rule α) : Prop := ∃ e, r.failure? i = some e ∧ e.isMismatch = true

theorem failure?_eq_some {i : Input} {r : Rule α} {e : Error} : r.failure? i = some e ↔ r i = .error e := by
  unfold failure?
  cases r i <;> simp

/-- Why the rules fail at a position, each failure as the grammar takes it. -/
def failures (i : Input) (rules : List (Rule α)) : List Error := (rules.filterMap (failure? i)).map Error.unwrapped

theorem failures_plain {rules : List (Rule α)} {i : Input} (all : ∀ r ∈ rules, r.Mismatches i) :
    ∀ x ∈ failures i rules, x.Plain := by
  intro x hx
  obtain ⟨y, hy, rfl⟩ := List.mem_map.1 hx
  obtain ⟨r, hr, failed⟩ := List.mem_filterMap.1 hy
  obtain ⟨e, same, mismatch⟩ := all r hr
  cases failed.symm.trans same
  exact Error.plain_unwrapped mismatch

theorem firstOf_of_mismatches {rules : List (Rule α)} {i : Input} (all : ∀ r ∈ rules, r.Mismatches i)
    (best : Error) : firstOf (some best) rules i = .error ((failures i rules).foldl Error.furthest best) := by
  induction rules generalizing best with
  | nil => rfl
  | cons r rules ih =>
    obtain ⟨⟨e, failed, mismatch⟩, all⟩ := List.forall_mem_cons.1 all
    rw [failures, List.filterMap_cons_some failed, List.map_cons, List.foldl_cons]
    refine Eq.trans ?_ (ih all (best.furthest e.unwrapped))
    simp only [firstOf, failure?_eq_some.1 failed, mismatch, if_true, Option.map_some, Option.getD_some]

/-- A choice of which no rule matches fails with what stands for the failures of its rules. -/
theorem alt_merges {rules : List (Rule α)} {i : Input} (nonempty : rules ≠ []) (all : ∀ r ∈ rules, r.Mismatches i) :
    ∃ e, alt rules i = .error e ∧ Error.Merges (failures i rules) e := by
  cases rules with
  | nil => exact absurd rfl nonempty
  | cons r rules =>
    obtain ⟨⟨e, failed, mismatch⟩, all⟩ := List.forall_mem_cons.1 all
    refine ⟨(failures i rules).foldl Error.furthest e.unwrapped, ?_, ?_⟩
    · rw [← firstOf_of_mismatches all e.unwrapped]
      simp only [alt, firstOf, failure?_eq_some.1 failed, mismatch, if_true, Option.map_none, Option.getD_none]
    · rw [failures, List.filterMap_cons_some failed, List.map_cons]
      exact (Error.Merges.single (Error.plain_unwrapped mismatch)).foldl (failures_plain all)

/-- Wherever none of the rules of a choice matches, the choice fails at the furthest position that one of them fails
at, and it expects, in their order, what those rules expect that fail there. Another order of the rules changes
neither where it fails, nor what it finds there, nor the message. -/
theorem alt_merges_mismatches {rules : List (Rule α)} (composed : ∀ r ∈ rules, Composed Idle r) {i : Input}
    (inside : i.InRange) (nonempty : rules ≠ []) (all : ∀ r ∈ rules, r.Mismatches i) :
    ∃ e, alt rules i = .error e ∧ e.isMismatch = true ∧
      ((rules.filterMap (failure? i)).map Error.pos).max? = some e.pos ∧
      e.expected = ((rules.filterMap (failure? i)).filter fun x => x.pos = e.pos).flatMap Error.expected ∧
      ∀ others : List (Rule α), rules.Perm others →
        ∃ e', alt others i = .error e' ∧ e'.isMismatch = true ∧ e'.pos = e.pos ∧ e'.span = e.span ∧
          e'.found = e.found ∧ e'.message = e.message := by
  have ahead : ∀ x ∈ rules.filterMap (failure? i), x.Ahead OfGrammar i := by
    intro x hx
    obtain ⟨r, hr, failed⟩ := List.mem_filterMap.1 hx
    exact ((composed r hr).placed Idle.placed).error inside (failure?_eq_some.1 failed)
  -- nothing that is composed so fails from outside, so there is nothing to unwrap
  have own : failures i rules = rules.filterMap (failure? i) := by
    refine (List.map_congr_left fun x hx => ?_).trans (List.map_id _)
    obtain ⟨j, code, reason, -, allowed, rfl⟩ := ahead x hx
    refine Error.unwrapped_of_own fun message wrapped foreign => ?_
    cases foreign
    exact allowed
  obtain ⟨e, failed, merges⟩ := alt_merges nonempty all
  rw [← own] at ahead ⊢
  refine ⟨e, failed, merges.plain.isMismatch, merges.pos_eq_max?, merges.expected, fun others perm => ?_⟩
  have nonempty' : others ≠ [] := fun h => nonempty (h ▸ perm).eq_nil
  obtain ⟨e', failed', merges'⟩ := alt_merges nonempty' fun r hr => all r (perm.mem_iff.2 hr)
  refine ⟨e', failed', merges'.plain.isMismatch, merges.message_eq merges' ((perm.filterMap _).map _) ?_⟩
  exact fun x hx y hy => (ahead x hx).same_place (ahead y hy)

/-- A single identifier. -/
private def lonelyName : Input := { tokens := #[{ kind := .ident }] }

/-- `let`, which the identifier is not, and two ways to go on behind it. -/
private def waysOn : List (Rule Token) :=
  [tag .kwLet, terminated (tag .ident) (tag .semicolon), preceded (tag .ident) (tag .dot)]

theorem ways_on_are_merged :
    lonelyName.InRange ∧ (∀ r ∈ waysOn, Composed Idle r) ∧ (∀ r ∈ waysOn, r.Mismatches lonelyName) ∧
      ∃ e, alt waysOn lonelyName = .error e ∧ e.pos = 1 ∧
        e.expected = [Token.Kind.semicolon.describe, Token.Kind.dot.describe] ∧
        ∃ e', alt waysOn.reverse lonelyName = .error e' ∧ e'.expected = e.expected.reverse ∧ e'.message = e.message := by
  have inside : lonelyName.InRange := Nat.zero_le _
  have composed : ∀ r ∈ waysOn, Composed Idle r := by
    simp only [waysOn, List.forall_mem_cons]
    exact ⟨.tag _, (Composed.tag _).terminated (.tag _), (Composed.tag _).preceded (.tag _), by simp⟩
  have missed : ∀ r ∈ waysOn, r.Mismatches lonelyName := by
    simp only [waysOn, List.forall_mem_cons]
    exact ⟨⟨_, rfl, rfl⟩, ⟨_, rfl, rfl⟩, ⟨_, rfl, rfl⟩, by simp⟩
  obtain ⟨e, failed, -, -, -, reordered⟩ := alt_merges_mismatches composed inside (by simp [waysOn]) missed
  obtain ⟨e', failed', -, -, -, -, message⟩ := reordered waysOn.reverse (List.reverse_perm _).symm
  cases failed
  cases failed'
  exact ⟨inside, composed, missed, _, rfl, rfl, rfl, _, rfl, rfl, message⟩

end Rule

end LetStack.Grammar
