import Mathlib.Data.UInt
import LetStack.Trace.Tracer

/-!
Bracketed sequences of events, and the calls of a tracer that lead to them. `Event.follow` keeps the open spans and
refuses an event that may not come then. `Fits` says of calls that their events go into one open span and are no
coarser than a scope. `Tracer.point` fits (`Fits.point`), and so do calls one after another (`Fits.trans`).

* `Tracer.start` and `Tracer.stop` fit around calls that are no coarser than the span (`Fits.span`): where it is not
  recorded these are not, either.
* Otherwise nothing may be open around the span (`Fits.outermost`).

Calls that fit where nothing is open make a bracketed sequence, as long as fewer than 2^64 spans are begun
(`Fits.bracketed`).
-/

namespace LetStack.Trace

/-! ## Bracketed sequences -/

/-- The number of the innermost of the spans that are open, innermost first; 0 if none is. -/
def innermost : List Event → UInt64
  | [] => 0
  | b :: _ => b.span

/-- What is open after an event; none if the event may not come then. Spans and points name the innermost open span,
and only that one may end, under its own number, scope and name and with the span it was begun in. -/
def Event.follow (opened : List Event) (e : Event) : Option (List Event) :=
  match e.kind, opened with
  | .start, opened => if e.parent = innermost opened then some (e :: opened) else none
  | .point, opened => if e.parent = innermost opened then some opened else none
  | .stop, b :: outer =>
    if e.span = b.span ∧ e.scope = b.scope ∧ e.name = b.name ∧ e.parent = b.parent then some outer else none
  | .stop, [] => none
  | .unknown _, _ => none

def Event.isStart (e : Event) : Bool := e.kind = .start

/-- Whether the event ends the span with a number. -/
def Event.ends (id : UInt64) (e : Event) : Bool := e.kind = .stop && e.span = id

/-- Every event may come when it comes, nothing is left open, and every span is ended once. -/
structure Bracketed (events : List Event) : Prop where
  nested : events.foldlM Event.follow [] = some []
  closed : ∀ b ∈ events, b.kind = .start → ∃ e, events.filter (Event.ends b.span) = [e] ∧
    e.scope = b.scope ∧ e.name = b.name ∧ e.parent = b.parent

variable {e : Event} {opened : List Event}

theorem Event.follow_start (kind : e.kind = .start) (parent : e.parent = innermost opened) :
    e.follow opened = some (e :: opened) := by
  simp only [follow, kind, parent, if_true]

theorem Event.follow_point (kind : e.kind = .point) (parent : e.parent = innermost opened) :
    e.follow opened = some opened := by
  simp only [follow, kind, parent, if_true]

theorem Event.follow_stop {b : Event} (outer : List Event) (kind : e.kind = .stop)
    (same : e.span = b.span ∧ e.scope = b.scope ∧ e.name = b.name ∧ e.parent = b.parent) :
    e.follow (b :: outer) = some outer := by
  simp only [follow, kind, same, and_self, if_true]

theorem Event.follow_eq_some {after : List Event} (h : e.follow opened = some after) :
    (e.kind = .start ∧ after = e :: opened) ∨ (e.kind = .point ∧ after = opened) ∨
      ∃ b, e.kind = .stop ∧ opened = b :: after ∧ e.span = b.span ∧ e.scope = b.scope ∧ e.name = b.name ∧
        e.parent = b.parent := by
  unfold follow at h
  split at h
  · next kind =>
    split at h
    · exact .inl ⟨kind, (Option.some.inj h).symm⟩
    · cases h
  · next kind =>
    split at h
    · exact .inr (.inl ⟨kind, (Option.some.inj h).symm⟩)
    · cases h
  · next b outer kind =>
    split at h
    · next same =>
      cases h
      exact .inr (.inr ⟨b, kind, rfl, same⟩)
    · cases h
  · cases h
  · cases h

/-- A span that is ended was open or is begun in the sequence. -/
theorem ended_of_nested {events : List Event} (nested : events.foldlM Event.follow opened = some [])
    (member : e ∈ events) (kind : e.kind = .stop) :
    e.span ∈ (opened ++ events.filter Event.isStart).map Event.span := by
  induction events generalizing opened with
  | nil => cases member
  | cons x events ih =>
    rw [List.foldlM_cons] at nested
    obtain ⟨after, step, goesOn⟩ := Option.bind_eq_some_iff.1 nested
    rcases Event.follow_eq_some step with ⟨start, rfl⟩ | ⟨point, rfl⟩ | ⟨b, stop, rfl, same, _⟩
    · rw [List.filter_cons_of_pos (by simp [Event.isStart, start])]
      cases member with
      | head => cases kind.symm.trans start
      | tail _ later =>
        have moved : (opened ++ x :: events.filter Event.isStart).Perm (x :: opened ++ events.filter Event.isStart) :=
          List.perm_middle
        exact (moved.map _).mem_iff.2 (ih goesOn later)
    · rw [List.filter_cons_of_neg (by simp [Event.isStart, point])]
      cases member with
      | head => cases kind.symm.trans point
      | tail _ later => exact ih goesOn later
    · rw [List.filter_cons_of_neg (by simp [Event.isStart, stop])]
      cases member with
      | head => exact List.mem_map.2 ⟨b, by simp, same.symm⟩
      | tail _ later => exact List.mem_cons_of_mem _ (ih goesOn later)

/-- If spans have numbers of their own, each that is open or begun is ended once. -/
theorem closed_of_nested {events : List Event} (nested : events.foldlM Event.follow opened = some [])
    (distinct : ((opened ++ events.filter Event.isStart).map Event.span).Nodup) :
    ∀ b ∈ opened ++ events.filter Event.isStart, ∃ e, events.filter (Event.ends b.span) = [e] ∧
      e.scope = b.scope ∧ e.name = b.name ∧ e.parent = b.parent := by
  induction events generalizing opened with
  | nil =>
    cases nested
    simp
  | cons x events ih =>
    rw [List.foldlM_cons] at nested
    obtain ⟨after, step, goesOn⟩ := Option.bind_eq_some_iff.1 nested
    have passes {id : UInt64} (other : x.kind ≠ .stop) :
        (x :: events).filter (Event.ends id) = events.filter (Event.ends id) :=
      List.filter_cons_of_neg (by simp [Event.ends, other])
    rcases Event.follow_eq_some step with ⟨start, rfl⟩ | ⟨point, rfl⟩ | ⟨b, stop, rfl, same, rest⟩
    · have moved : (opened ++ x :: events.filter Event.isStart).Perm (x :: opened ++ events.filter Event.isStart) :=
        List.perm_middle
      rw [List.filter_cons_of_pos (by simp [Event.isStart, start])] at distinct ⊢
      intro b hb
      rw [passes (by simp [start])]
      exact ih goesOn ((moved.map _).nodup_iff.1 distinct) b (moved.mem_iff.1 hb)
    · rw [List.filter_cons_of_neg (by simp [Event.isStart, point])] at distinct ⊢
      intro b hb
      rw [passes (by simp [point])]
      exact ih goesOn distinct b hb
    · rw [List.filter_cons_of_neg (by simp [Event.isStart, stop])] at distinct ⊢
      rw [List.cons_append, List.map_cons, List.nodup_cons] at distinct
      obtain ⟨fresh, distinct⟩ := distinct
      refine List.forall_mem_cons.2 ⟨?_, fun c hc => ?_⟩
      · -- the number that is given free here does not come again
        have never : events.filter (Event.ends b.span) = [] := by
          refine List.filter_eq_nil_iff.2 fun e he ends => ?_
          obtain ⟨kind, span⟩ : e.kind = .stop ∧ e.span = b.span := by simpa [Event.ends] using ends
          exact fresh (span ▸ ended_of_nested goesOn he kind)
        rw [List.filter_cons_of_pos (by simp [Event.ends, stop, same]), never]
        exact ⟨x, rfl, rest⟩
      · have other : b.span ≠ c.span := fun h => fresh (h ▸ List.mem_map.2 ⟨c, hc, rfl⟩)
        rw [List.filter_cons_of_neg (by simp [Event.ends, same, other])]
        exact ih goesOn distinct c hc

/-! ## What a tracer is given -/

theorem Level.emits_of_le {l : Level} {s t : Scope} (h : l.emits t = true) (coarser : s.number ≤ t.number) :
    l.emits s = true := by
  cases l with
  | off | unknown => cases h
  | debug => rfl
  | phase | detail => exact decide_eq_true (Nat.le_trans coarser (of_decide_eq_true h))

namespace Tracer

variable {scope : Scope} {t : Tracer}

theorem begins_iff : (t.isEnabled && t.level.emits scope) = t.level.emits scope := by
  rw [isEnabled]
  cases t.level with
  | unknown => exact Bool.and_false _
  | off | phase | detail | debug => rfl

theorem emit_frame (t : Tracer) (e : Event) :
    (t.emit e).level = t.level ∧ (t.emit e).spans = t.spans := by
  unfold emit
  split
  · split <;> exact ⟨rfl, rfl⟩
  · exact ⟨rfl, rfl⟩

theorem emit_with_spans (t : Tracer) (n : UInt64) (e : Event) :
    { t with spans := n }.emit e = { t.emit e with spans := n } := by
  obtain ⟨level, sink⟩ := t
  dsimp only [emit]
  split
  · cases sink <;> rfl
  · rfl

theorem foldl_emit_frame (t : Tracer) (events : List Event) :
    (events.foldl emit t).level = t.level ∧ (events.foldl emit t).spans = t.spans := by
  induction events generalizing t with
  | nil => exact ⟨rfl, rfl⟩
  | cons e events ih =>
    obtain ⟨level, spans⟩ := ih (t.emit e)
    obtain ⟨level', spans'⟩ := t.emit_frame e
    exact ⟨level.trans level', spans.trans spans'⟩

theorem foldl_emit_with_spans (t : Tracer) (n : UInt64) (events : List Event) :
    events.foldl emit { t with spans := n } = { events.foldl emit t with spans := n } := by
  induction events generalizing t with
  | nil => rfl
  | cons e events ih => rw [List.foldl_cons, List.foldl_cons, emit_with_spans, ih]

/-- `t'` is `t` after the events, none of which its level leaves out, and after beginning the spans among them. -/
structure Emitted (t : Tracer) (events : List Event) (t' : Tracer) : Prop where
  passed : ∀ e ∈ events, t.level.emits e.scope = true
  after : t' = { events.foldl emit t with spans := t.spans + .ofNat (events.countP Event.isStart) }

namespace Emitted

variable {t t' t'' : Tracer} {events more : List Event}

theorem nil (t : Tracer) : t.Emitted [] t := ⟨by simp, by simp⟩

theorem single {e : Event} (passed : t.level.emits e.scope = true) (kind : e.isStart = false) :
    t.Emitted [e] (t.emit e) := by
  refine ⟨by simpa using passed, ?_⟩
  have none : [e].countP Event.isStart = 0 := by simp [kind]
  rw [none, List.foldl_cons, List.foldl_nil, ← (t.emit_frame e).2]
  simp

theorem level (h : t.Emitted events t') : t'.level = t.level := by
  rw [h.after]
  exact (t.foldl_emit_frame events).1

theorem spans (h : t.Emitted events t') : t'.spans = t.spans + .ofNat (events.countP Event.isStart) := by
  rw [h.after]

theorem trans (h : t.Emitted events t') (h' : t'.Emitted more t'') : t.Emitted (events ++ more) t'' where
  passed e member := by
    rcases List.mem_append.1 member with first | second
    · exact h.passed e first
    · exact h.level ▸ h'.passed e second
  after := by
    rw [h'.after, h.spans, h.after, foldl_emit_with_spans, List.foldl_append, List.countP_append, UInt64.ofNat_add,
      UInt64.add_assoc]

end Emitted

theorem start_of_inert (inert : t.level.emits scope = false) (name : Bytes) (parent : UInt64) :
    t.start scope name parent = ({}, t) := by
  rw [start, begins_iff, inert, if_neg Bool.false_ne_true]

theorem exists_start (passes : t.level.emits scope = true) (name : Bytes) (parent : UInt64) :
    ∃ b t', t.start scope name parent = ({ recorded := true, id := b.span, parent, scope, name }, t') ∧
      t.Emitted [b] t' ∧ b.kind = .start ∧ b.span = t.spans + 1 ∧ b.scope = scope ∧ b.name = name ∧
      b.parent = parent := by
  let b : Event :=
    { time := t.clock, kind := .start, scope, span := t.spans + 1, parent, worker := t.worker, name }
  have begun : t.Emitted [b] ({ t with spans := t.spans + 1 }.emit b) := ⟨by simpa using passes, t.emit_with_spans _ b⟩
  refine ⟨b, _, ?_, begun, rfl, rfl, rfl, rfl, rfl⟩
  rw [start, begins_iff, passes, if_pos rfl]

theorem exists_stop {t : Tracer} {s : ActiveSpan} (active : s.recorded = true) (passes : t.level.emits s.scope = true)
    (detail : Bytes) :
    ∃ e, t.Emitted [e] (t.stop s detail) ∧ e.kind = .stop ∧ e.span = s.id ∧ e.scope = s.scope ∧ e.name = s.name ∧
      e.parent = s.parent := by
  rw [stop, ActiveSpan.isInert, active, Bool.not_true, if_neg Bool.false_ne_true]
  exact ⟨_, .single passes rfl, rfl, rfl, rfl, rfl, rfl⟩

end Tracer

/-- Values that are attached to a span change nothing that its events are known by. -/
theorem ActiveSpan.withExtra_frame (s : ActiveSpan) (key value : Bytes) :
    ∃ extra, s.withExtra key value = { s with extra } := by
  unfold withExtra
  split
  · exact ⟨s.extra, rfl⟩
  · exact ⟨_, rfl⟩

/-! ## Calls that fit into a span -/

/-- The `n` numbers behind `s`. -/
def numbersBehind (s : UInt64) (n : Nat) : List UInt64 := (List.range n).map fun i => s + .ofNat (i + 1)

theorem numbersBehind_add (s : UInt64) (m n : Nat) :
    numbersBehind s (m + n) = numbersBehind s m ++ numbersBehind (s + .ofNat m) n := by
  simp only [numbersBehind, List.range_add, List.map_append, List.map_map]
  congr 2
  funext i
  simp only [Function.comp_apply, UInt64.ofNat_add, UInt64.add_assoc]

theorem nodup_numbersBehind (s : UInt64) {n : Nat} (few : n ≤ 0x10000000000000000) : (numbersBehind s n).Nodup := by
  refine List.Nodup.map_on (fun i hi j hj same => ?_) List.nodup_range
  rw [List.mem_range] at hi hj
  have words := congrArg UInt64.toNat ((UInt64.add_right_inj s).1 same)
  simp only [UInt64.toNat_ofNat'] at words
  omega

/-- The events lead from one state of a tracer to another and go into the span `parent`: they are no coarser than a
scope, whatever is open around them is open again behind them, and the spans among them have the next numbers. -/
structure Nests (scope : Scope) (parent : UInt64) (t : Tracer) (events : List Event) (t' : Tracer) : Prop where
  emitted : t.Emitted events t'
  finer : ∀ e ∈ events, scope.number ≤ e.scope.number
  returns : ∀ opened, innermost opened = parent → events.foldlM Event.follow opened = some opened
  numbered : (events.filter Event.isStart).map Event.span = numbersBehind t.spans (events.countP Event.isStart)

/-- The calls between two states of a tracer go into the span `parent`, are no coarser than a scope and begin at most
`n` spans. -/
def Fits (scope : Scope) (parent : UInt64) (n : Nat) (t t' : Tracer) : Prop :=
  ∃ events, Nests scope parent t events t' ∧ events.countP Event.isStart ≤ n

theorem Nests.append {scope : Scope} {parent : UInt64} {t t' t'' : Tracer} {events more : List Event}
    (h : Nests scope parent t events t') (h' : Nests scope parent t' more t'') :
    Nests scope parent t (events ++ more) t'' where
  emitted := h.emitted.trans h'.emitted
  finer e member := (List.mem_append.1 member).elim (h.finer e) (h'.finer e)
  returns opened inner := by
    rw [List.foldlM_append, h.returns opened inner]
    exact h'.returns opened inner
  numbered := by
    rw [List.filter_append, List.map_append, h.numbered, h'.numbered, h.emitted.spans, List.countP_append,
      numbersBehind_add]

theorem Nests.enclose {scope : Scope} {t t₁ t₂ t₃ : Tracer} {b : Event} {inner : List Event}
    (begun : t.Emitted [b] t₁) (start : b.kind = .start) (number : b.span = t.spans + 1)
    (coarser : scope.number ≤ b.scope.number) (inside : Nests scope b.span t₁ inner t₂) (ended : t₂.Emitted [e] t₃)
    (stop : e.kind = .stop) (same : e.span = b.span ∧ e.scope = b.scope ∧ e.name = b.name ∧ e.parent = b.parent) :
    Nests scope b.parent t (b :: (inner ++ [e])) t₃ where
  emitted := begun.trans (inside.emitted.trans ended)
  finer := by
    refine List.forall_mem_cons.2 ⟨coarser, fun x member => ?_⟩
    rcases List.mem_append.1 member with between | last
    · exact inside.finer x between
    · rw [List.mem_singleton.1 last, same.2.1]
      exact coarser
  returns opened around := by
    rw [List.foldlM_cons, Event.follow_start start around.symm, Option.bind_eq_bind, Option.bind_some,
      List.foldlM_append, inside.returns (b :: opened) rfl, Option.bind_eq_bind, Option.bind_some, List.foldlM_cons,
      Event.follow_stop opened stop same]
    rfl
  numbered := by
    have one : [b].countP Event.isStart = 1 := by rw [List.countP_singleton, Event.isStart, start]; rfl
    have spans : t₁.spans = t.spans + .ofNat 1 := by rw [begun.spans, one]
    have begins : (b :: (inner ++ [e])).filter Event.isStart = b :: inner.filter Event.isStart := by
      simp [Event.isStart, start, stop]
    rw [List.countP_eq_length_filter, begins, List.map_cons, inside.numbered, List.length_cons,
      ← List.countP_eq_length_filter, Nat.add_comm, numbersBehind_add, spans, number]
    rfl

namespace Fits

variable {scope coarse : Scope} {parent : UInt64} {m n : Nat} {t t' t'' : Tracer}

theorem refl (scope : Scope) (parent : UInt64) (n : Nat) (t : Tracer) : Fits scope parent n t t :=
  ⟨[], ⟨.nil t, by simp, fun _ _ => rfl, rfl⟩, Nat.zero_le n⟩

theorem trans (h : Fits scope parent m t t') (h' : Fits scope parent n t' t'') :
    Fits scope parent (m + n) t t'' := by
  obtain ⟨events, nests, few⟩ := h
  obtain ⟨more, nests', few'⟩ := h'
  exact ⟨events ++ more, nests.append nests', by rw [List.countP_append]; exact Nat.add_le_add few few'⟩

theorem mono (h : Fits scope parent m t t') (coarser : coarse.number ≤ scope.number) (fewer : m ≤ n) :
    Fits coarse parent n t t' := by
  obtain ⟨events, nests, few⟩ := h
  exact ⟨events, { nests with finer := fun e member => Nat.le_trans coarser (nests.finer e member) },
    Nat.le_trans few fewer⟩

theorem point (t : Tracer) (scope : Scope) (name detail : Bytes) (parent : UInt64) :
    Fits scope parent 0 t (t.point scope name detail parent) := by
  cases passes : t.level.emits scope with
  | false =>
    rw [Tracer.point, Tracer.begins_iff, passes, if_neg Bool.false_ne_true]
    exact .refl ..
  | true =>
    rw [Tracer.point, Tracer.begins_iff, passes, if_pos rfl]
    refine ⟨[_], ⟨.single passes rfl, by simp, fun opened around => ?_, rfl⟩, Nat.le_refl 0⟩
    rw [List.foldlM_cons, Event.follow_point rfl around.symm]
    rfl

variable {s s' : ActiveSpan} {name : Bytes}

theorem recorded (passes : t.level.emits scope = true) (coarser : coarse.number ≤ scope.number)
    (begun : t.start scope name parent = (s, t')) (inside : Fits coarse s.id n t' t'') {extra : Extra}
    (same : s' = { s with extra }) (detail : Bytes) : Fits coarse parent (n + 1) t (t''.stop s' detail) := by
  obtain ⟨b, t₁, started, emitted, start, number, rfl, rfl, rfl⟩ := t.exists_start passes name parent
  obtain ⟨rfl, rfl⟩ := Prod.mk.inj (begun.symm.trans started)
  subst same
  obtain ⟨inner, nests, few⟩ := inside
  have still : t''.level.emits b.scope = true := by rw [nests.emitted.level, emitted.level, passes]
  let last : ActiveSpan :=
    { recorded := true, id := b.span, parent := b.parent, scope := b.scope, name := b.name, extra }
  obtain ⟨e, ended, stop, same⟩ := @Tracer.exists_stop t'' last rfl still detail
  refine ⟨b :: (inner ++ [e]), .enclose emitted start number coarser nests ended stop same, ?_⟩
  rw [List.countP_cons_of_pos (by simp [Event.isStart, start]), List.countP_append,
    List.countP_singleton, Event.isStart, stop]
  exact Nat.succ_le_succ few

theorem span (begun : t.start scope name parent = (s, t')) (inside : Fits scope s.id n t' t'') {extra : Extra}
    (same : s' = { s with extra }) (detail : Bytes) : Fits scope parent (n + 1) t (t''.stop s' detail) := by
  cases passes : t.level.emits scope with
  | true => exact recorded passes (Nat.le_refl _) begun inside same detail
  | false =>
    rw [Tracer.start_of_inert passes] at begun
    obtain ⟨rfl, rfl⟩ := Prod.mk.inj begun
    obtain ⟨events, nests, -⟩ := inside
    have nothing : events = [] := by
      refine List.eq_nil_iff_forall_not_mem.2 fun e member => Bool.eq_false_iff.1 passes ?_
      exact Level.emits_of_le (nests.emitted.passed e member) (nests.finer e member)
    subst nothing same
    have still : t''.stop { ({} : ActiveSpan) with extra } detail = t := by
      rw [nests.emitted.after]
      simp [Tracer.stop, ActiveSpan.isInert]
    rw [still]
    exact .refl ..

theorem bare (begun : t.start scope name parent = (s, t')) (detail : Bytes) :
    Fits scope parent 1 t (t'.stop s detail) := by
  have nothing : Fits scope s.id 0 t' t' := .refl ..
  exact span begun nothing rfl detail

theorem outermost (coarser : coarse.number ≤ scope.number) (begun : t.start scope name 0 = (s, t'))
    (inside : Fits coarse s.id n t' t'') (detail : Bytes) : Fits coarse 0 (n + 1) t (t''.stop s detail) := by
  cases passes : t.level.emits scope with
  | true => exact recorded passes coarser begun inside rfl detail
  | false =>
    rw [Tracer.start_of_inert passes] at begun
    obtain ⟨rfl, rfl⟩ := Prod.mk.inj begun
    exact inside.mono (Nat.le_refl _) (Nat.le_succ n)

theorem bracketed (h : Fits scope 0 n t t') (few : n ≤ 0x10000000000000000) :
    ∃ events, t.Emitted events t' ∧ Bracketed events := by
  obtain ⟨events, nests, begins⟩ := h
  have nested := nests.returns [] rfl
  refine ⟨events, nests.emitted, nested, fun b member kind => ?_⟩
  have distinct : ((([] : List Event) ++ events.filter Event.isStart).map Event.span).Nodup := by
    rw [List.nil_append, nests.numbered]
    exact nodup_numbersBehind _ (Nat.le_trans begins few)
  exact closed_of_nested nested distinct b (List.mem_filter.2 ⟨member, by simp [Event.isStart, kind]⟩)

end Fits

end LetStack.Trace
