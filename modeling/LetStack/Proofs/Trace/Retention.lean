import Mathlib.Data.List.DropRight
import LetStack.Proofs.Trace.Nesting

/-!
`Ring.push` writes at the head and moves it on; `full` is set when the head comes back to the first place, and from
then on it is at the oldest event. `Ring.toList` shows the last events, as many as there are places
(`Ring.toList_foldl_push`). `Tracer.emit` pushes the events that its level lets through, numbered in order
(`Tracer.sink_foldl_emit`), which increases until the count in 64 bits runs over (`pairwise_numbersBehind`).
-/

namespace LetStack.Trace

/-! ## The last members of a list -/

section Last

variable {α : Type}

theorem rtake_of_length_le {l : List α} {n : Nat} (short : l.length ≤ n) : l.rtake n = l := by
  rw [List.rtake, Nat.sub_eq_zero_of_le short, List.drop_zero]

theorem rtake_rtake_append (l more : List α) (n : Nat) : (l.rtake n ++ more).rtake n = (l ++ more).rtake n := by
  simp only [List.rtake_eq_reverse_take_reverse, List.reverse_append, List.reverse_reverse, List.take_append,
    List.take_take, Nat.min_eq_left (Nat.sub_le ..)]

end Last

/-! ## Rings -/

namespace Ring

variable (r : Ring) (e : Event)

theorem size_push : (r.push e).places.size = r.places.size := Array.size_set r.head_lt

theorem length_toList : r.toList.length = if r.full then r.places.size else r.head := by
  have inside := r.head_lt
  unfold toList
  split
  · rw [List.length_append, List.length_drop, List.length_take, Array.length_toList]
    omega
  · rw [List.length_take, Array.length_toList]
    omega

theorem length_toList_le : r.toList.length ≤ r.places.size := by
  have inside := r.head_lt
  rw [length_toList]
  split <;> omega

theorem places_push :
    (r.push e).places.toList = r.places.toList.take r.head ++ [e] ++ r.places.toList.drop (r.head + 1) := by
  have inside : r.head < r.places.toList.length := r.head_lt
  show (r.places.set r.head e r.head_lt).toList = _
  rw [Array.toList_set, List.set_eq_take_append_cons_drop, if_pos inside, List.append_cons]

/-- The newest event comes behind what was in front of the head and, in a full ring, what was behind it. -/
theorem toList_push_eq :
    (r.push e).toList =
      (if r.full then r.places.toList.drop (r.head + 1) else []) ++ r.places.toList.take r.head ++ [e] := by
  have inside := r.head_lt
  have upTo : (r.places.toList.take r.head ++ [e]).length = r.head + 1 := by
    rw [List.length_append, List.length_take_of_le (Nat.le_of_lt inside), List.length_singleton]
  have full : (r.push e).full = (r.full || (r.head + 1) % r.places.size == 0) := rfl
  have head : (r.push e).head = (r.head + 1) % r.places.size := rfl
  rw [toList, places_push, full, head]
  have next : r.head + 1 ≤ r.places.size := inside
  rcases Nat.lt_or_eq_of_le next with next | last
  · have moved : (r.head + 1) % r.places.size = r.head + 1 := Nat.mod_eq_of_lt next
    rw [moved, List.drop_left' upTo, List.take_left' upTo]
    cases r.full <;> simp
  · -- from the last place the head goes back to the first, and nothing is behind it
    have back : (r.head + 1) % r.places.size = 0 := by rw [last, Nat.mod_self]
    have behind : r.places.toList.drop (r.head + 1) = [] := List.drop_eq_nil_of_le (Nat.le_of_eq last.symm)
    rw [back, behind]
    simp

theorem toList_push : (r.push e).toList = (r.toList ++ [e]).rtake r.places.size := by
  have inside := r.head_lt
  rw [toList_push_eq]
  cases full : r.full with
  | false =>
    have shown : r.toList = r.places.toList.take r.head := by rw [toList, full, if_neg Bool.false_ne_true]
    have short : (r.toList ++ [e]).length ≤ r.places.size := by
      rw [List.length_append, length_toList, full, if_neg Bool.false_ne_true]
      exact inside
    rw [rtake_of_length_le short, shown]
    rfl
  | true =>
    have shown : r.toList = r.places.toList.drop r.head ++ r.places.toList.take r.head := by
      rw [toList, full, if_pos rfl]
    have rest : r.toList.drop 1 = r.places.toList.drop (r.head + 1) ++ r.places.toList.take r.head := by
      rw [shown, List.drop_append_of_le_length (by rw [List.length_drop, Array.length_toList]; omega), List.drop_drop]
    have one : r.toList.length - (r.places.size - 1) = 1 := by
      rw [length_toList, full, if_pos rfl]
      omega
    rw [← Nat.sub_add_cancel (Nat.zero_lt_of_lt inside), List.rtake_concat_succ, List.rtake, one, rest]
    rfl

/-- A ring holds the last of all events that were pushed. -/
theorem toList_foldl_push (events : List Event) :
    (events.foldl push r).toList = (r.toList ++ events).rtake r.places.size := by
  induction events generalizing r with
  | nil => rw [List.foldl_nil, List.append_nil, rtake_of_length_le r.length_toList_le]
  | cons e events ih =>
    rw [List.foldl_cons, ih, size_push, toList_push, rtake_rtake_append, List.append_assoc, List.singleton_append]

end Ring

/-! ## Tracers -/

def Level.passed (level : Level) (events : List Event) : List Event := events.filter fun e => level.emits e.scope

/-- Events with consecutive numbers behind `n`. -/
def numbered (n : UInt64) (events : List Event) : List Event :=
  events.mapIdx fun i e => { e with seq := n + .ofNat (i + 1) }

theorem numbered_cons (n : UInt64) (e : Event) (events : List Event) :
    numbered n (e :: events) = { e with seq := n + 1 } :: numbered (n + 1) events := by
  simp only [numbered, List.mapIdx_cons, UInt64.ofNat_add, UInt64.add_assoc, UInt64.add_comm 1]
  rfl

theorem length_numbered (n : UInt64) (events : List Event) : (numbered n events).length = events.length :=
  List.length_mapIdx

theorem map_seq_numbered (n : UInt64) (events : List Event) :
    (numbered n events).map Event.seq = numbersBehind n events.length := by
  induction events generalizing n with
  | nil => rfl
  | cons e events ih =>
    rw [numbered_cons, List.map_cons, ih, List.length_cons, Nat.add_comm, numbersBehind_add]
    rfl

theorem pairwise_numbersBehind {s : UInt64} {n : Nat} (fits : s.toNat + n < 0x10000000000000000) :
    (numbersBehind s n).Pairwise (· < ·) := by
  refine List.pairwise_map.2 (List.pairwise_lt_range.imp_of_mem fun hi hj less => ?_)
  rw [List.mem_range] at hi hj
  rw [UInt64.lt_iff_toNat_lt]
  simp only [UInt64.toNat_add, UInt64.toNat_ofNat']
  omega

namespace Tracer

theorem emit_of_passed {t : Tracer} {r : Ring} (sink : t.sink = .ring r) {e : Event}
    (passed : t.level.emits e.scope = true) :
    t.emit e = { t with seq := t.seq + 1, sink := .ring (r.push { e with seq := t.seq + 1 }) } := by
  rw [emit, if_pos passed, sink]

theorem emit_of_left_out {t : Tracer} {e : Event} (leftOut : ¬t.level.emits e.scope = true) : t.emit e = t :=
  if_neg leftOut

theorem sink_foldl_emit {t : Tracer} {r : Ring} (sink : t.sink = .ring r) (events : List Event) :
    (events.foldl emit t).sink = .ring ((numbered t.seq (t.level.passed events)).foldl Ring.push r) := by
  induction events generalizing t r with
  | nil => exact sink
  | cons e events ih =>
    by_cases passed : t.level.emits e.scope = true
    · have first : t.level.passed (e :: events) = e :: t.level.passed events := List.filter_cons_of_pos passed
      rw [List.foldl_cons, emit_of_passed sink passed, ih rfl, first, numbered_cons]
      rfl
    · have none : t.level.passed (e :: events) = t.level.passed events := List.filter_cons_of_neg passed
      rw [List.foldl_cons, emit_of_left_out passed, ih sink, none]

theorem ofRing?_of_le {room : Nat} {capacity : Int} (level : Level) (fits : Ring.capacityOf capacity ≤ room) :
    ofRing? room capacity level =
      some { level, sink := .ring (.ofCapacity (Ring.capacityOf capacity) (Ring.capacityOf_pos capacity)) } := by
  rw [ofRing?, Ring.ofCapacity?, if_pos fits]
  rfl

theorem ofRing?_of_lt {room : Nat} {capacity : Int} (level : Level) (tooMany : room < Ring.capacityOf capacity) :
    ofRing? room capacity level = none := by
  rw [ofRing?, Ring.ofCapacity?, if_neg (Nat.not_le.2 tooMany)]
  rfl

/-- The events in the ring of a new tracer are the last of those that were let through. -/
theorem snapshot_foldl_emit {t : Tracer} {capacity : Nat} {positive : 0 < capacity}
    (sink : t.sink = .ring (.ofCapacity capacity positive)) (events : List Event) :
    (events.foldl emit t).snapshot = (numbered t.seq (t.level.passed events)).rtake capacity := by
  have nothing : (Ring.ofCapacity capacity positive).toList = [] := rfl
  have places : (Ring.ofCapacity capacity positive).places.size = capacity := Array.size_replicate
  rw [snapshot, sink_foldl_emit sink]
  dsimp only
  rw [Ring.toList_foldl_push, nothing, places, List.nil_append]

end Tracer

/-- Where there is room for its ring a tracer can be had, and otherwise not. Whatever number was given last before and
whatever events it is given, such a tracer shows the last of the events that its level lets through, as many as there
are places for, the oldest first. Their numbers increase unless the count runs over. -/
theorem ring_keeps_last_events (room : Nat) (capacity : Int) (level : Level) :
    let places := if capacity ≤ 0 then 4096 else capacity.toNat
    (places ≤ room → ∃ t, Tracer.ofRing? room capacity level = some t ∧
      ∀ (n : UInt64) (events : List Event),
        let passed := level.passed events
        let kept := min places passed.length
        let shown := (events.foldl Tracer.emit { t with seq := n }).snapshot
        shown = (numbered n passed).drop (passed.length - kept) ∧ shown.length = kept ∧
        (n.toNat + passed.length < 0x10000000000000000 → (shown.map Event.seq).Pairwise (· < ·))) ∧
    (room < places → Tracer.ofRing? room capacity level = none) := by
  intro places
  refine ⟨fun fits => ⟨_, Tracer.ofRing?_of_le level fits, fun n events => ?_⟩, Tracer.ofRing?_of_lt level⟩
  intro passed kept shown
  have last : shown = (numbered n passed).rtake places := Tracer.snapshot_foldl_emit rfl events
  have length : (numbered n passed).length = passed.length := length_numbered n passed
  have least : kept = min places passed.length := rfl
  have dropped : (numbered n passed).length - places = passed.length - kept := by omega
  rw [List.rtake, dropped] at last
  rw [last]
  refine ⟨rfl, ?_, fun few => ?_⟩
  · rw [List.length_drop, length]
    omega
  · rw [List.map_drop, map_seq_numbered]
    exact (pairwise_numbersBehind few).drop

private def note (scope : Scope) (letter : UInt8) : Event := { kind := .point, scope, name := [letter] }

/-- The second event is left out, and of the other three two are shown. -/
theorem full_ring_shows_last_two :
    ∃ t, Tracer.ofRing? 100 2 .detail = some t ∧
      let shown := ([note .file 0x61, note .statement 0x62, note .pass 0x63, note .file 0x64].foldl Tracer.emit
        { t with seq := 7 }).snapshot
      shown = [{ note .pass 0x63 with seq := 9 }, { note .file 0x64 with seq := 10 }] ∧
        (shown.map Event.seq).Pairwise (· < ·) := by
  obtain ⟨t, made, shows⟩ := (ring_keeps_last_events 100 2 .detail).1 (by decide)
  obtain ⟨last, _, increasing⟩ := shows 7 [note .file 0x61, note .statement 0x62, note .pass 0x63, note .file 0x64]
  exact ⟨t, made, last, increasing (by decide)⟩

/-- There is no ring with 2^62 places, not even for a single event, where there is room for 2^58. -/
theorem no_ring_without_room :
    ¬∃ t, Tracer.ofRing? 0x400000000000000 0x4000000000000000 .debug = some t ∧
      (t.emit (note .pass 0x61)).snapshot = [{ note .pass 0x61 with seq := 1 }] := by
  rintro ⟨t, made, -⟩
  rw [Tracer.ofRing?_of_lt .debug (by decide)] at made
  cases made

end LetStack.Trace
