import LetStack.Build.Timings

/-!
A timer collects steps of a program in the order in which they started. The time is given to it, so
that it has no clock of its own.
-/

namespace LetStack

/-- A step that was started, with the time it took once it has ended. -/
structure TimedStep where
  name : Bytes
  start : Duration
  duration : Duration := 0
  note : Bytes := []
  deriving DecidableEq, Repr, Inhabited

structure Timer where
  steps : List TimedStep := []
  deriving Repr, Inhabited

namespace Timer

/-- Starts a step and gives its number. -/
def begin (t : Timer) (now : Duration) (name : Bytes) : Nat × Timer :=
  (t.steps.length, { steps := t.steps ++ [{ name, start := now }] })

/-- Ends the step of a number, with a note. A number that no step has changes nothing. -/
def finish (t : Timer) (now : Duration) (step : Int) (note : Bytes) : Timer :=
  if step < 0 then t
  else { steps := t.steps.modify step.toNat fun s => { s with duration := now - s.start, note } }

def summaryLine (name note : Bytes) (d : Duration) : Bytes :=
  let remark : Bytes := if note = [] then [] else "  // " ++ note
  "  " ++ Utf8.padRight 20 name ++ " " ++ Bytes.padLeft 7 (d.milliseconds 2) ++ " ms" ++ remark ++ "\n"

/-- The steps as a table, with the time they took together. -/
def summary (t : Timer) : Bytes :=
  let lines : Bytes := t.steps.flatMap fun s => summaryLine s.name s.note s.duration
  "timings:\n" ++ lines ++ summaryLine "total" [] (t.steps.map (·.duration)).sum

end Timer

end LetStack
