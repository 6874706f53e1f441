import LetStack.Build.Progress
import LetStack.Compile.Traced

/-!
A build compiles a file or a directory of sources and writes an artifact for every file without
errors, as a listing or packed.
-/

namespace LetStack

inductive EmitFormat where
  | none
  | listing
  | packed
  deriving DecidableEq, Repr, Inhabited

namespace EmitFormat

def name : EmitFormat → Bytes
  | none => "none"
  | listing => "ir"
  | packed => "msgpack"

def ofName? (n : Bytes) : Option EmitFormat := [none, listing, packed].find? (·.name == n)

def extension : EmitFormat → Bytes
  | none => []
  | listing => ".rir"
  | packed => ".rirb"

end EmitFormat

structure BuildRequest where
  target : Bytes
  /-- The directory that display names are relative to. -/
  base : Bytes := []
  options : CompileOptions := {}
  cacheDir? : Option Bytes := none
  /-- The name of an artifact format, no artifacts if empty. -/
  emit : Bytes := []
  /-- Where artifacts go, `build` below the base if empty. -/
  out : Bytes := []
  deriving Repr, Inhabited

inductive BuildError where
  | noRequest
  | unknownFormat (name : Bytes)
  | noTarget
  | file (e : FileError)
  | noSources (dir : Bytes)
  | emitFailed (name : Bytes) (e : FileError)
  deriving DecidableEq, Repr, Inhabited

def BuildError.message : BuildError → Bytes
  | noRequest => "missing build request"
  | unknownFormat name => "unknown emit format " ++ Text.quote name
  | noTarget => "missing target path"
  | file e => e.message
  | noSources dir => dir ++ ": no .rano files found"
  | emitFailed name e => "emit " ++ name ++ ": " ++ e.message

/-- What a build compiled, whether or not it went on. -/
structure CompiledTarget where
  fileSet : FileSet := {}
  files : List Compilation := []
  /-- The display names of the files. -/
  names : List Bytes := []
  /-- The stages that took time. -/
  stages : List Stage := []
  deriving Inhabited

def CompiledTarget.hasErrors (c : CompiledTarget) : Bool := c.files.any (·.hasFailed)

structure BuildOutcome where
  compiled : Option CompiledTarget := none
  /-- The artifacts that were written. -/
  outputs : List Bytes := []
  events : List ProgressEvent := []
  error : Option BuildError := none
  tree : FileTree
  deriving Inhabited

namespace BuildOutcome

def failed (t : FileTree) (e : BuildError) : BuildOutcome := { tree := t, error := some e }

end BuildOutcome

namespace FileTree

/-- The paths that a target stands for. -/
def targetSources (t : FileTree) (target : Bytes) : Except BuildError (List Bytes × Bool) := do
  if target = [] then throw .noTarget
  match t.stat target with
  | .error e => throw (.file e)
  | .ok .directory =>
    match t.sources target with
    | .error e => throw (.file e)
    | .ok [] => throw (.noSources target)
    | .ok files => return (files, true)
  | .ok _ => return ([target], false)

/-- Reports of a build in order: all files wait, are worked on one after another, and are finished. -/
def progressOf (names : List Bytes) (files : List Compilation) : List ProgressEvent :=
  let named := names.zip files
  ProgressEvent.queued names ++ named.flatMap (fun (n, c) => ProgressEvent.working n c) ++
    named.map fun (n, c) => .finished n c

def compileTarget (t : FileTree) (r : BuildRequest) : BuildOutcome :=
  match t.targetSources r.target with
  | .error e => .failed t e
  | .ok (sources, isDir) =>
    let names := displayNames t.workDir r.base sources
    if isDir then
      let (d, tree) := t.compileDirectory r.options r.cacheDir? r.target sources
      { compiled := some
          { fileSet := d.fileSet, files := d.files, names, stages := stagesOf d.files }
        events := progressOf names d.files, tree }
    else
      match t.compile r.options r.cacheDir? r.target with
      | .ok (fileSet, c, tree) =>
        { compiled := some
            { fileSet, files := [c], names, stages := stagesOf [c] }
          events := progressOf names [c], tree }
      | .error e =>
        { compiled := some { names }
          events := ProgressEvent.queued names ++ ProgressEvent.failed names e.message, error := some (.file e), tree := t }

def traceTarget (t : FileTree) (r : BuildRequest) (tracer : Trace.Tracer) : Trace.Tracer :=
  match t.targetSources r.target with
  | .error _ => tracer
  | .ok (sources, true) => t.traceDirectory r.options r.cacheDir? r.target sources tracer
  | .ok (_, false) =>
    match t.read r.target with
    | .error _ => tracer
    | .ok content =>
      let (id, fs) := ({} : FileSet).addLoaded r.target content
      match fs.get? id with
      | some f => (t.traceFile r.options r.cacheDir? f 0 tracer).2
      | none => tracer

end FileTree

/-! ## Artifacts -/

/-- The name of an artifact below the output directory: the display name with another extension,
without steps upwards and without slashes in front. -/
def artifactName (display extension : Bytes) : Bytes :=
  (Bytes.replace "../" [] (display.dropSuffix sourceExtension)).dropWhile (· = Path.slash) ++ extension

def outputRoot (r : BuildRequest) : Bytes := if r.out = [] then Path.join [r.base, "build"] else r.out

def artifactPath (root display : Bytes) (f : EmitFormat) : Bytes :=
  Path.join [root, artifactName display f.extension]

def artifactContent (f : EmitFormat) (p : Machine.Program) : Bytes :=
  match f with
  | .packed => p.pack
  | _ => p.render

def FileTree.writeArtifact (t : FileTree) (path : Bytes) (f : EmitFormat) (p : Machine.Program) :
    Except FileError FileTree := do
  let t ← t.makeDirectories (Path.dir path)
  t.write path (artifactContent f p)

namespace BuildOutcome

/-- Writes the artifact of a file that compiled without errors, after which it may be impossible to
go on. -/
def emitOne (root : Bytes) (f : EmitFormat) (o : BuildOutcome) (name : Bytes) (c : Compilation) : BuildOutcome :=
  if o.error.isSome ∨ c.hasFailed then o
  else
    let path := artifactPath root name f
    let working : ProgressEvent := ⟨name, .emit, .working, none, 0⟩
    match o.tree.writeArtifact path f c.program with
    | .ok tree =>
      { o with tree, outputs := o.outputs ++ [path]
               events := o.events ++ [working, ⟨name, .emit, .done, none, 0⟩] }
    | .error e =>
      { o with error := some (.emitFailed name e)
               events := o.events ++ [working, ⟨name, .emit, .error, some e.message, 0⟩] }

def emitAll (root : Bytes) (f : EmitFormat) (o : BuildOutcome) (target : CompiledTarget) : BuildOutcome :=
  let o := (target.names.zip target.files).foldl (fun o (n, c) => o.emitOne root f n c) o
  if o.error.isSome then o else { o with compiled := some { target with stages := target.stages ++ [.emit] } }

/-- Goes on from what was compiled to the artifacts, if there are to be any. -/
def emitted (root : Bytes) (f : EmitFormat) (o : BuildOutcome) : BuildOutcome :=
  match o.compiled with
  | some target => if o.error.isSome ∨ f = .none then o else o.emitAll root f target
  | none => o

end BuildOutcome

def FileTree.build (t : FileTree) (r : BuildRequest) : BuildOutcome :=
  match if r.emit = [] then some .none else EmitFormat.ofName? r.emit with
  | none => .failed t (.unknownFormat r.emit)
  | some f => (t.compileTarget r).emitted (outputRoot r) f

end LetStack
