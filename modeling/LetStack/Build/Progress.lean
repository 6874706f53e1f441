import LetStack.Compile.Basic
import LetStack.Duration

/-!
Progress of a build: for every file, which stage it is in and how that goes. Files go by display
names, relative to a base directory if they lie below it.
-/

namespace LetStack

inductive Stage where
  | load | cache | lex | parse | codegen | emit
  /-- A stage that no build reports. -/
  | other (name : Bytes)
  deriving DecidableEq, Repr, Inhabited

namespace Stage

/-- The stages in the order of a build. -/
def all : List Stage := [load, cache, lex, parse, codegen, emit]

def name : Stage → Bytes
  | load => "load"
  | cache => "cache"
  | lex => "lex"
  | parse => "parse"
  | codegen => "codegen"
  | emit => "emit"
  | other n => n

def ofName (n : Bytes) : Stage := (all.find? (·.name == n)).getD (other n)

def ofPhase : Phase → Stage
  | .load => load
  | .cache => cache
  | .lex => lex
  | .parse => parse
  | .codegen => codegen

end Stage

inductive Status where
  | queued | working | done | error
  /-- A status that no build reports. -/
  | other (name : Bytes)
  deriving DecidableEq, Repr, Inhabited

namespace Status

def name : Status → Bytes
  | queued => "queued"
  | working => "working"
  | done => "done"
  | error => "error"
  | other n => n

def ofName (n : Bytes) : Status := ([queued, working, done, error].find? (·.name == n)).getD (other n)

end Status

/-- A report on a file, or on the whole build if the name is empty. -/
structure ProgressEvent where
  file : Bytes
  stage : Stage
  status : Status
  error : Option Bytes := none
  /-- How long the stage took. -/
  elapsed : Duration := 0
  deriving DecidableEq, Repr, Inhabited

def displayName (workDir file base : Bytes) : Bytes :=
  let base := Utf8.trim base
  if base = [] then Path.clean file
  else
    let path := Path.absolute workDir (Path.clean file)
    let rel := Path.relative (Path.absolute workDir base) path
    if rel ≠ "." ∧ !rel.startsWith ".." then rel else path

/-- The names of files in reports; an empty path has none. -/
def displayNames (workDir base : Bytes) (files : List Bytes) : List Bytes :=
  (files.filter (· ≠ [])).map fun f => displayName workDir f base

namespace ProgressEvent

/-- Every file waits for its turn. -/
def queued (names : List Bytes) : List ProgressEvent := names.map fun n => ⟨n, .lex, .queued, none, 0⟩

/-- What is reported on a phase: that work began, and that a file could not be read. -/
def ofPhase? (name : Bytes) (e : Phase.Event) : Option ProgressEvent :=
  match e.status with
  | .started => some ⟨name, .ofPhase e.phase, .working, none, 0⟩
  | .failed => if e.phase = .load then some ⟨name, .load, .error, none, 0⟩ else none
  | .ended => none

def working (name : Bytes) (c : Compilation) : List ProgressEvent := c.events.filterMap (ofPhase? name)

def finished (name : Bytes) (c : Compilation) : ProgressEvent :=
  ⟨name, .codegen, if c.hasFailed then .error else .done, none, 0⟩

def failed (names : List Bytes) (message : Bytes) : List ProgressEvent :=
  ([] :: names).map fun n => ⟨n, .codegen, .error, some message, 0⟩

end ProgressEvent

/-- The stages of the phases that files went through. -/
def stagesOf (cs : List Compilation) : List Stage :=
  let reached := cs.flatMap fun c => (c.events.filter (·.status ≠ .started)).map fun e => Stage.ofPhase e.phase
  Stage.all.filter reached.contains

end LetStack
