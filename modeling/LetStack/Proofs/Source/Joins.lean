import LetStack.Source.Span

/-!
`Span.join` is associative on all spans (`join_assoc`). On those that cover something or are `Span.empty` (`Settled`)
it is a commutative monoid, so `joinAll` does not depend on the order (`joinAll_perm`) and is the least span around
the members that cover something (`joinAll_hull`).
-/

namespace LetStack.Span

/-! ## Two spans -/

variable {s t : Span}

theorem join_of_isEmpty (h : s.isEmpty = true) (t : Span) : s.join t = t := by
  rw [join, if_pos h]

theorem join_of_isEmpty_right (hs : s.isEmpty = false) (ht : t.isEmpty = true) : s.join t = s := by
  rw [join, hs, if_neg Bool.false_ne_true, if_pos ht]

theorem join_of_covering (hs : s.isEmpty = false) (ht : t.isEmpty = false) :
    s.join t =
      let start := if s.start ≤ t.start then s.start else t.start
      let stop := if s.stop ≤ t.stop then t.stop else s.stop
      { start, stop, line := if s.line ≤ t.line then s.line else t.line
        column := if s.column ≤ t.column then s.column else t.column, length := stop - start } := by
  simp only [join, hs, ht, Bool.false_eq_true, if_false]
  rfl

theorem isEmpty_eq_false : s.isEmpty = false ↔ s.start ≤ s.stop := by
  rw [isEmpty, decide_eq_false_iff_not, UInt32.not_lt]

theorem isEmpty_join (s t : Span) : (s.join t).isEmpty = (s.isEmpty && t.isEmpty) := by
  cases hs : s.isEmpty with
  | true => rw [join_of_isEmpty hs, Bool.true_and]
  | false =>
    cases ht : t.isEmpty with
    | true => rw [join_of_isEmpty_right hs ht, hs, Bool.false_and]
    | false =>
      have left := isEmpty_eq_false.1 hs
      rw [join_of_covering hs ht, Bool.false_and, isEmpty_eq_false]
      grind

theorem lesser_assoc (a b c : UInt32) :
    (if (if a ≤ b then a else b) ≤ c then if a ≤ b then a else b else c) =
      if a ≤ (if b ≤ c then b else c) then a else if b ≤ c then b else c := by
  grind

theorem greater_assoc (a b c : UInt32) :
    (if (if a ≤ b then b else a) ≤ c then c else if a ≤ b then b else a) =
      if a ≤ (if b ≤ c then c else b) then if b ≤ c then c else b else a := by
  grind

theorem join_assoc (s t u : Span) : (s.join t).join u = s.join (t.join u) := by
  cases hs : s.isEmpty with
  | true => rw [join_of_isEmpty hs, join_of_isEmpty hs]
  | false =>
    have first : (s.join t).isEmpty = false := by rw [isEmpty_join, hs, Bool.false_and]
    cases ht : t.isEmpty with
    | true => rw [join_of_isEmpty_right hs ht, join_of_isEmpty ht]
    | false =>
      have last : (t.join u).isEmpty = false := by rw [isEmpty_join, ht, Bool.false_and]
      cases hu : u.isEmpty with
      | true => rw [join_of_isEmpty_right first hu, join_of_isEmpty_right ht hu]
      | false =>
        rw [join_of_covering first hu, join_of_covering hs last, join_of_covering hs ht, join_of_covering ht hu]
        simp only [lesser_assoc, greater_assoc]

/-- The span covers something or is the empty one. -/
def Settled (s : Span) : Prop := s.isEmpty = true → s = empty

theorem settled_empty : empty.Settled := fun _ => rfl

theorem Settled.join (s : Span) (ht : t.Settled) : (s.join t).Settled := by
  intro h
  rw [isEmpty_join, Bool.and_eq_true] at h
  rw [join_of_isEmpty h.1, ht h.2]

theorem Settled.join_empty (h : s.Settled) : s.join empty = s := by
  cases hs : s.isEmpty with
  | true => rw [join_of_isEmpty hs, h hs]
  | false => exact join_of_isEmpty_right hs rfl

theorem Settled.join_comm (hs : s.Settled) (ht : t.Settled) : s.join t = t.join s := by
  cases es : s.isEmpty with
  | true => rw [hs es, ht.join_empty, join_of_isEmpty rfl]
  | false =>
    cases et : t.isEmpty with
    | true => rw [ht et, hs.join_empty, join_of_isEmpty rfl]
    | false =>
      rw [join_of_covering es et, join_of_covering et es]
      grind

/-! ## Lists of spans -/

theorem foldl_join {spans : List Span} (hs : s.Settled) (all : ∀ t ∈ spans, t.Settled) :
    spans.foldl join s = s.join (joinAll spans) := by
  induction spans generalizing s with
  | nil => exact hs.join_empty.symm
  | cons t spans ih =>
    obtain ⟨ht, all⟩ := List.forall_mem_cons.1 all
    have second : joinAll (t :: spans) = t.join (joinAll spans) := by
      rw [joinAll, List.foldl_cons, join_of_isEmpty rfl, ih ht all]
    rw [List.foldl_cons, ih (ht.join s) all, join_assoc, second]

theorem joinAll_cons {spans : List Span} (hs : s.Settled) (all : ∀ t ∈ spans, t.Settled) :
    joinAll (s :: spans) = s.join (joinAll spans) := by
  rw [joinAll, List.foldl_cons, join_of_isEmpty rfl, foldl_join hs all]

theorem isEmpty_joinAll {spans : List Span} (all : ∀ s ∈ spans, s.Settled) :
    (joinAll spans).isEmpty = spans.all isEmpty := by
  induction spans with
  | nil => rfl
  | cons s spans ih =>
    obtain ⟨hs, all⟩ := List.forall_mem_cons.1 all
    rw [joinAll_cons hs all, isEmpty_join, ih all, List.all_cons]

theorem settled_joinAll {spans : List Span} (all : ∀ s ∈ spans, s.Settled) : (joinAll spans).Settled := by
  induction spans with
  | nil => exact settled_empty
  | cons s spans ih =>
    obtain ⟨hs, all⟩ := List.forall_mem_cons.1 all
    rw [joinAll_cons hs all]
    exact (ih all).join s

theorem joinAll_perm {spans others : List Span} (h : spans.Perm others) (all : ∀ s ∈ spans, s.Settled) :
    joinAll others = joinAll spans := by
  induction h with
  | nil => rfl
  | cons s h ih =>
    obtain ⟨hs, all⟩ := List.forall_mem_cons.1 all
    rw [joinAll_cons hs all, joinAll_cons hs fun t ht => all t (h.mem_iff.2 ht), ih all]
  | swap s t spans =>
    obtain ⟨ht, hs, all⟩ : t.Settled ∧ s.Settled ∧ ∀ u ∈ spans, u.Settled := by simpa using all
    have behind : ∀ {u : Span}, u.Settled → ∀ v ∈ u :: spans, v.Settled := fun hu => List.forall_mem_cons.2 ⟨hu, all⟩
    rw [joinAll_cons hs (behind ht), joinAll_cons ht (behind hs), joinAll_cons ht all, joinAll_cons hs all,
      ← join_assoc, ← join_assoc, hs.join_comm ht]
  | trans h _ ih ih' => exact (ih' fun s hs => all s (h.mem_iff.2 hs)).trans (ih all)

/-! ## The least span around spans -/

/-- The bounds of the span are the outermost ones of the list, its line and column the first ones, and it contains
every member. -/
structure Hull (spans : List Span) (s : Span) : Prop where
  start : (∃ t ∈ spans, t.start = s.start) ∧ ∀ t ∈ spans, s.start ≤ t.start
  stop : (∃ t ∈ spans, t.stop = s.stop) ∧ ∀ t ∈ spans, t.stop ≤ s.stop
  line : (∃ t ∈ spans, t.line = s.line) ∧ ∀ t ∈ spans, s.line ≤ t.line
  column : (∃ t ∈ spans, t.column = s.column) ∧ ∀ t ∈ spans, s.column ≤ t.column
  contains : ∀ t ∈ spans, s.contains t = true

theorem contains_iff :
    s.contains t = true ↔ s.isEmpty = false ∧ t.isEmpty = false ∧ s.start ≤ t.start ∧ t.stop ≤ s.stop := by
  simp [contains, and_assoc]

theorem Hull.single {s : Span} (h : s.isEmpty = false) : Hull [s] s where
  start := by simp
  stop := by simp
  line := by simp
  column := by simp
  contains := by simp [contains_iff, h]

theorem Hull.cons {s r : Span} {spans : List Span} (hs : s.isEmpty = false) (hr : r.isEmpty = false)
    (h : Hull spans r) : Hull (s :: spans) (s.join r) := by
  have covering : (s.join r).isEmpty = false := by rw [isEmpty_join, hs, Bool.false_and]
  obtain ⟨⟨first, atFirst, start⟩, starts⟩ := h.start
  obtain ⟨⟨last, atLast, stop⟩, stops⟩ := h.stop
  obtain ⟨⟨top, atTop, line⟩, lines⟩ := h.line
  obtain ⟨⟨left, atLeft, column⟩, columns⟩ := h.column
  have inside := fun t ht => contains_iff.1 (h.contains t ht)
  simp only [join_of_covering hs hr] at covering ⊢
  constructor <;> simp only [List.mem_cons, contains_iff, covering] <;> grind

/-- The join of a list in which something is covered is the least span around the members that cover something. -/
theorem joinAll_hull {spans : List Span} (all : ∀ s ∈ spans, s.Settled) (some : (joinAll spans).isEmpty = false) :
    Hull (spans.filter fun s => !s.isEmpty) (joinAll spans) := by
  induction spans with
  | nil => cases some
  | cons s spans ih =>
    obtain ⟨hs, all⟩ := List.forall_mem_cons.1 all
    rw [joinAll_cons hs all] at some ⊢
    cases es : s.isEmpty with
    | true =>
      rw [join_of_isEmpty es] at some ⊢
      rw [List.filter_cons_of_neg (by simp [es])]
      exact ih all some
    | false =>
      rw [List.filter_cons_of_pos (by simp [es])]
      cases er : (joinAll spans).isEmpty with
      | true =>
        -- nothing is covered behind `s`, so it is the only member left
        have none : spans.filter (fun t => !t.isEmpty) = [] := by
          rw [isEmpty_joinAll all, List.all_eq_true] at er
          exact List.filter_eq_nil_iff.2 fun t ht => by simp [er t ht]
        rw [none, join_of_isEmpty_right es er]
        exact .single es
      | false => exact .cons es er (ih all er)

/-- Joining is associative, with the empty span as its identity: on the left for every span, on the right for every
span that covers something. The join of a list whose members cover something or are the empty span does not depend on
their order; it is the empty span exactly if no member covers anything, and otherwise the least span around those that
do. -/
theorem joins_are_ordered_unions :
    (∀ s t u : Span, (s.join t).join u = s.join (t.join u)) ∧
    (∀ s : Span, empty.join s = s) ∧
    (∀ s : Span, s.isEmpty = false → s.join empty = s) ∧
    ∀ spans : List Span, (∀ s ∈ spans, s.isEmpty = true → s = empty) →
      (∀ others, spans.Perm others → joinAll others = joinAll spans) ∧
      (joinAll spans = empty ↔ ¬∃ s ∈ spans, s.isEmpty = false) ∧
      ((∃ s ∈ spans, s.isEmpty = false) → Hull (spans.filter fun s => !s.isEmpty) (joinAll spans)) := by
  refine ⟨join_assoc, join_of_isEmpty rfl, fun s hs => join_of_isEmpty_right hs rfl, fun spans all => ?_⟩
  have covering : (joinAll spans).isEmpty = false ↔ ∃ s ∈ spans, s.isEmpty = false := by
    rw [isEmpty_joinAll all, List.all_eq_false]
    simp
  refine ⟨fun others h => joinAll_perm h all, ?_, fun some => joinAll_hull all (covering.2 some)⟩
  rw [← covering, Bool.not_eq_false]
  exact ⟨fun h => h ▸ rfl, settled_joinAll all⟩

/-- Two spans, the later one first, with the empty span between them. -/
private def scattered : List Span :=
  [{ start := 4, stop := 6, line := 1, column := 2, length := 2 }, empty,
   { start := 0, stop := 1, line := 0, column := 3, length := 1 }]

theorem scattered_spans_are_joined :
    (∀ s ∈ scattered, s.isEmpty = true → s = empty) ∧
    joinAll scattered = { start := 0, stop := 6, line := 0, column := 2, length := 6 } ∧
    joinAll scattered.reverse = joinAll scattered ∧ joinAll scattered ≠ empty ∧
    Hull (scattered.filter fun s => !s.isEmpty) (joinAll scattered) := by
  have settled : ∀ s ∈ scattered, s.isEmpty = true → s = empty := by decide
  have covering : ∃ s ∈ scattered, s.isEmpty = false := by decide
  obtain ⟨-, -, -, joins⟩ := joins_are_ordered_unions
  obtain ⟨anyOrder, nothing, hull⟩ := joins scattered settled
  refine ⟨settled, by decide, anyOrder _ (List.reverse_perm _).symm, fun h => ?_, hull covering⟩
  exact nothing.1 h covering

end LetStack.Span
