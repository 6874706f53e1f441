import LetStack.Build.Progress

/-!
The board of a build shows one row per file. Reports move a row on; a row that has failed stays failed.
-/

namespace LetStack

inductive RowState where
  | queued
  | working (stage : Stage)
  | done
  | failed
  deriving DecidableEq, Repr, Inhabited

structure Row where
  name : Bytes
  state : RowState := .queued
  elapsed : Duration := 0
  /-- Why the file failed, if a report said so. -/
  reason : Bytes := []
  deriving DecidableEq, Repr, Inhabited

namespace Row

/-- The state that a report leads to; none for a status that no build reports. -/
def next? (e : ProgressEvent) : Option RowState :=
  match e.status with
  | .queued => some .queued
  | .working => some (.working e.stage)
  | .done => some .done
  | .error => some .failed
  | .other _ => none

/-- The row after a report, none if the report does not matter. -/
def after? (r : Row) (e : ProgressEvent) : Option Row :=
  if r.state = .failed then none
  else (next? e).map fun state =>
    { r with state, elapsed := r.elapsed + e.elapsed
             reason := if state = .failed then e.error.getD r.reason else r.reason }

def isDone (r : Row) : Bool := r.state == .done
def isFailed (r : Row) : Bool := r.state == .failed

end Row

structure Board where
  rows : List Row := []
  deriving Repr, Inhabited

namespace Board

def ofNames (names : List Bytes) : Board := { rows := names.map fun name => { name } }

/-- The row of a name, the last one if there are several. -/
def rowOf? (b : Board) (name : Bytes) : Option Nat :=
  ((List.range b.rows.length).reverse).find? fun i => b.rows[i]?.map (·.name) == some name

def after? (b : Board) (e : ProgressEvent) : Option Board := do
  let i ← b.rowOf? e.file
  let r ← (← b.rows[i]?).after? e
  return { rows := b.rows.set i r }

def apply (b : Board) (e : ProgressEvent) : Board := if e.file = [] then b else (b.after? e).getD b

def applyAll (b : Board) (es : List ProgressEvent) : Board := es.foldl apply b

def doneCount (b : Board) : Nat := b.rows.countP (·.isDone)
def failedCount (b : Board) : Nat := b.rows.countP (·.isFailed)

end Board

end LetStack
