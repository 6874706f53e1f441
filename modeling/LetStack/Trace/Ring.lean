import LetStack.Trace.Event

/-!
A ring keeps the last events in a fixed number of places. An event goes to the place at the head, which then moves on to
the next place, and from the last place back to the first.
-/

namespace LetStack.Trace

structure Ring where
  /-- All places, those that were never taken with a blank event. -/
  places : Array Event
  /-- The place of the next event. -/
  head : Nat := 0
  /-- Whether the head has come back to the first place. -/
  full : Bool := false
  head_lt : head < places.size
  deriving Repr

namespace Ring

def blank : Event := { kind := .unknown 0, scope := .unknown 0, name := [] }

/-- How many places a ring gets that is asked for so many. -/
def capacityOf (n : Int) : Nat := if n ≤ 0 then 4096 else n.toNat

theorem capacityOf_pos (n : Int) : 0 < capacityOf n := by
  unfold capacityOf
  split <;> omega

/-- A ring with a number of places, which must not be 0. -/
def ofCapacity (capacity : Nat) (positive : 0 < capacity) : Ring where
  places := Array.replicate capacity blank
  head_lt := by rwa [Array.size_replicate]

/-- A ring with so many places as are asked for; none if there is room for fewer only. -/
def ofCapacity? (room : Nat) (n : Int) : Option Ring :=
  if capacityOf n ≤ room then some (ofCapacity (capacityOf n) (capacityOf_pos n)) else none

def push (r : Ring) (e : Event) : Ring where
  places := r.places.set r.head e r.head_lt
  head := (r.head + 1) % r.places.size
  full := r.full || (r.head + 1) % r.places.size == 0
  head_lt := by
    rw [Array.size_set]
    exact Nat.mod_lt _ (Nat.zero_lt_of_lt r.head_lt)

/-- Every event changed in its place. -/
def map (f : Event → Event) (r : Ring) : Ring where
  places := r.places.map f
  head := r.head
  full := r.full
  head_lt := by
    rw [Array.size_map]
    exact r.head_lt

/-- The events from the oldest to the newest. -/
def toList (r : Ring) : List Event :=
  if r.full then r.places.toList.drop r.head ++ r.places.toList.take r.head else r.places.toList.take r.head

end Ring

end LetStack.Trace
