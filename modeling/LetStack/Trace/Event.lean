import LetStack.Text.Fold
import LetStack.Text.Quoted

/-!
Events of a trace: spans that begin and end, and points in time. Each belongs to a scope, and the
level of a trace decides which scopes are recorded.
-/

namespace LetStack.Trace

inductive Kind where
  | start
  | stop
  | point
  | unknown (number : Nat)
  deriving DecidableEq, Repr, Inhabited

namespace Kind

def ofNat : Nat → Kind
  | 1 => start
  | 2 => stop
  | 3 => point
  | n => unknown n

def name : Kind → String
  | start => "begin"
  | stop => "end"
  | point => "point"
  | unknown _ => "unknown"

end Kind

/-- What an event is about, from coarse to fine. -/
inductive Scope where
  | command
  | pass
  | file
  | statement
  | unknown (number : Nat)
  deriving DecidableEq, Repr, Inhabited

namespace Scope

def ofNat : Nat → Scope
  | 1 => command
  | 2 => pass
  | 3 => file
  | 4 => statement
  | n => unknown n

def number : Scope → Nat
  | command => 1
  | pass => 2
  | file => 3
  | statement => 4
  | unknown n => n

def name : Scope → String
  | command => "driver"
  | pass => "pass"
  | file => "file"
  | statement => "stmt"
  | unknown _ => "unknown"

end Scope

inductive Level where
  | off
  | phase
  | detail
  | debug
  | unknown (number : Nat)
  deriving DecidableEq, Repr, Inhabited

namespace Level

def ofNat : Nat → Level
  | 0 => off
  | 1 => phase
  | 2 => detail
  | 3 => debug
  | n => unknown n

def name : Level → String
  | off => "off"
  | phase => "phase"
  | detail => "detail"
  | debug => "debug"
  | unknown _ => "unknown"

def number : Level → Nat
  | off => 0
  | phase => 1
  | detail => 2
  | debug => 3
  | unknown n => n

/-- Whether events of a scope are recorded. -/
def emits : Level → Scope → Bool
  | phase, s => s.number ≤ 2
  | detail, s => s.number ≤ 3
  | debug, _ => true
  | off, _ | unknown _, _ => false

def ofName (x : Bytes) : Except Bytes Level :=
  match [off, phase, detail, debug].find? fun l => Text.sameFolded x l.name with
  | some l => .ok l
  | none => .error ("invalid trace level: " ++ Text.quote x ++ " (expected: off|phase|detail|debug)")

end Level

/-- A moment: nanoseconds since the start of 1970 in UTC, and the seconds that local clocks are
ahead. -/
structure Moment where
  nanos : Int := 0
  offset : Int := 0
  deriving DecidableEq, Repr, Inhabited

abbrev Extra := List (Bytes × Bytes)

/-- Gives a key a value, in place of the value it had. -/
def Extra.set (e : Extra) (key value : Bytes) : Extra := e.filter (·.1 != key) ++ [(key, value)]

def Extra.sorted (e : Extra) : Extra := e.mergeSort fun x y => !Bytes.before y.1 x.1

structure Event where
  time : Moment := {}
  /-- A number in 64 bits: behind the greatest one comes 0. -/
  seq : UInt64 := 0
  kind : Kind
  scope : Scope
  /-- The number of the span that begins or ends. -/
  span : UInt64 := 0
  /-- The span it happens in, 0 for none. -/
  parent : UInt64 := 0
  worker : Nat := 0
  name : Bytes
  detail : Bytes := []
  extra : Extra := []
  deriving DecidableEq, Repr, Inhabited

end LetStack.Trace
