import LetStack.Build.Progress

/-!
How long the stages of a build took, summed over all files.
-/

namespace LetStack

/-- The time recorded for each stage, no stage twice. -/
structure Timings where
  stages : List (Stage × Duration) := []
  deriving Repr, Inhabited

namespace Timings

def has (t : Timings) (s : Stage) : Bool := (t.stages.lookup s).isSome

def duration (t : Timings) (s : Stage) : Duration := (t.stages.lookup s).getD 0

def set (t : Timings) (s : Stage) (d : Duration) : Timings :=
  { stages := t.stages.filter (·.1 != s) ++ [(s, d)] }

def add (t : Timings) (s : Stage) (d : Duration) : Timings := t.set s (t.duration s + d)

/-- The time of several stages together; one that is named twice counts twice. -/
def sum (t : Timings) (stages : List Stage) : Duration := (stages.map t.duration).sum

def total (t : Timings) : Duration := t.sum Stage.all

end Timings

end LetStack
