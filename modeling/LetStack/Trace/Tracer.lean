import LetStack.Trace.Format
import LetStack.Trace.Ring

/-!
A tracer numbers the events of the scopes that its level lets through and records them: in a ring, or
in writing as they come. Numbers of events and of spans are counted in 64 bits. A span of a scope that is not recorded
is inert: it has the number 0, and nothing that is done with it is recorded.
-/

namespace LetStack.Trace

inductive Sink where
  | nowhere
  | ring (r : Ring)
  | stream (format : Format) (written : Bytes)
  /-- A stream that was closed. Events are still numbered, but nothing more is written. -/
  | closed (written : Bytes)
  deriving Repr, Inhabited

structure Tracer where
  level : Level := .off
  sink : Sink := .nowhere
  /-- The number of the last event. -/
  seq : UInt64 := 0
  /-- The number of the last span. -/
  spans : UInt64 := 0
  /-- The time of the events to come. -/
  clock : Moment := {}
  worker : Nat := 1
  deriving Repr, Inhabited

structure ActiveSpan where
  /-- Whether its tracer records it. -/
  recorded : Bool := false
  id : UInt64 := 0
  parent : UInt64 := 0
  scope : Scope := .unknown 0
  name : Bytes := []
  extra : Extra := []
  deriving DecidableEq, Repr, Inhabited

def ActiveSpan.isInert (s : ActiveSpan) : Bool := !s.recorded

/-- Attaches a value to the end of the span. -/
def ActiveSpan.withExtra (s : ActiveSpan) (key value : Bytes) : ActiveSpan :=
  if s.isInert then s else { s with extra := s.extra.set key value }

namespace Tracer

def silent : Tracer := {}

/-- A tracer that keeps the last events; none if there is no room for so many. -/
def ofRing? (room : Nat) (capacity : Int) (level : Level) : Option Tracer :=
  (Ring.ofCapacity? room capacity).map fun r => { level, sink := .ring r }

/-- A tracer that writes; none is needed when the level is off. -/
def ofStream (level : Level) (format : Format) : Tracer :=
  if level = .off then silent else { level, sink := .stream format [] }

def isEnabled (t : Tracer) : Bool := 0 < t.level.number

/-- Numbers and records an event if the level lets its scope through. -/
def emit (t : Tracer) (e : Event) : Tracer :=
  if t.level.emits e.scope then
    let e := { e with seq := t.seq + 1 }
    match t.sink with
    | .nowhere => t
    | .closed _ => { t with seq := t.seq + 1 }
    | .ring r => { t with seq := t.seq + 1, sink := .ring (r.push e) }
    | .stream format written => { t with seq := t.seq + 1, sink := .stream format (written ++ e.render format) }
  else t

def start (t : Tracer) (scope : Scope) (name : Bytes) (parent : UInt64) : ActiveSpan × Tracer :=
  if t.isEnabled && t.level.emits scope then
    let id := t.spans + 1
    ({ recorded := true, id, parent, scope, name },
      { t with spans := id }.emit
        { time := t.clock, kind := .start, scope, span := id, parent, worker := t.worker, name })
  else ({}, t)

def stop (t : Tracer) (s : ActiveSpan) (detail : Bytes) : Tracer :=
  if s.isInert then t
  else
    t.emit { time := t.clock, kind := .stop, scope := s.scope, span := s.id, parent := s.parent,
             worker := t.worker, name := s.name, detail, extra := s.extra }

/-- Reports something that happens at once. -/
def point (t : Tracer) (scope : Scope) (name detail : Bytes) (parent : UInt64) : Tracer :=
  if t.isEnabled && t.level.emits scope then
    t.emit { time := t.clock, kind := .point, scope, parent, worker := t.worker, name, detail }
  else t

/-- Attaches a value to a span. The ends of one span share their values: an end that the ring keeps gets
the value too, unless the span had none at that time. -/
def attach (t : Tracer) (s : ActiveSpan) (key value : Bytes) : ActiveSpan × Tracer :=
  let shares (e : Event) : Bool := e.kind = .stop && e.span = s.id && !e.extra.isEmpty
  let noted (e : Event) : Event := if shares e then { e with extra := e.extra.set key value } else e
  match t.sink with
  | .ring r => (s.withExtra key value, if s.isInert then t else { t with sink := .ring (r.map noted) })
  | _ => (s.withExtra key value, t)

def close (t : Tracer) : Tracer :=
  match t.sink with
  | .stream _ written => { t with sink := .closed written }
  | _ => t

/-- The events in the ring, oldest first. -/
def snapshot (t : Tracer) : List Event :=
  match t.sink with
  | .ring r => r.toList
  | _ => []

def written (t : Tracer) : Bytes :=
  match t.sink with
  | .stream _ written | .closed written => written
  | _ => []

end Tracer

end LetStack.Trace
