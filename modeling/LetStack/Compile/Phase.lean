import LetStack.Text.Bytes

/-!
The phases of compiling a file. A phase that was run leaves a record, from which progress reports and
timings are made.
-/

namespace LetStack

inductive Phase where
  | load
  /-- Looking for the result of an earlier compilation. -/
  | cache
  | lex
  | parse
  | codegen
  deriving DecidableEq, Repr, Inhabited

namespace Phase

def name : Phase → String
  | load => "load"
  | cache => "cache"
  | lex => "lex"
  | parse => "parse"
  | codegen => "codegen"

inductive Status where
  | started
  | ended
  /-- Ended with errors. -/
  | failed
  deriving DecidableEq, Repr, Inhabited

def Status.name : Status → String
  | started => "start"
  | ended => "end"
  | failed => "failed"

structure Run where
  phase : Phase
  /-- What is worth noting about the result. -/
  note : Bytes := []
  failed : Bool := false
  deriving Repr, Inhabited

/-- A report that a phase of a file began or ended. -/
structure Event where
  file : Bytes
  phase : Phase
  status : Status
  deriving DecidableEq, Repr, Inhabited

namespace Run

def events (file : Bytes) (r : Run) : List Event :=
  [⟨file, r.phase, .started⟩, ⟨file, r.phase, if r.failed then .failed else .ended⟩]

/-- What a list of timings says about the run. -/
def timingNote (file : Bytes) (r : Run) : Bytes := if r.note = [] then file else file ++ ": " ++ r.note

end Run

end Phase

end LetStack
