import LetStack.Build.Timer
import LetStack.CommandLine.Session

/-!
The command that builds. What the manifest says goes unless a flag says otherwise.
-/

namespace LetStack.CommandLine

structure BuildPlan where
  target : Bytes
  base : Bytes
  settings : BuildSettings
  format : EmitFormat := .none
  deriving Repr, Inhabited

/-- The settings that flags give, the other ones as they are. -/
def overridden (p : Parsed) (s : BuildSettings) : BuildSettings :=
  { s with
    strict := if p.isGiven "strict" then p.switch "strict" else s.strict
    emit := p.text "emit" s.emit
    cache := if p.isGiven "cache" then p.switch "cache" else s.cache
    jobs := p.number "jobs" s.jobs
    maxDiagnostics := p.number "max-diagnostics" s.maxDiagnostics }

/-- The directory whose manifest goes for a target. -/
def searchDirectory (target : Bytes) : Run Bytes := do
  if target = [] then return "."
  match ← Run.orFail .badTarget ((← get).tree.stat target) with
  | .directory => return target
  | _ => return Path.dir target

def planBuild (p : Parsed) : Run BuildPlan := do
  let target := p.words.headD []
  let dir ← searchDirectory target
  let tree := (← get).tree
  let manifest? ← match ← Run.orFail .search (tree.findManifest dir) with
    | some path => some <$> Run.orFail (.manifest path) (tree.loadManifest path)
    | none => pure none
  let plan : BuildPlan := match manifest? with
    | some m => { target := if target = [] then m.sourceDir else target, base := m.root, settings := m.build }
    | none => { target, base := dir, settings := {} }
  let settings := overridden p plan.settings
  let some format := EmitFormat.ofName? settings.emit | throw (.badEmit settings.emit)
  return { plan with target := if plan.target = [] then "." else plan.target, settings, format }

/-! ## Profiles and traces -/

/-- Creates the profiles that are asked for. -/
def startProfiles (p : Parsed) : Run Unit := do
  let cpu := p.text "cpu-profile" []
  if cpu ≠ [] then Run.writeFile .cpuProfile cpu []
  let trace := p.text "runtime-trace" []
  if trace ≠ [] then Run.writeFile .runTrace trace []

/-- Creates the profile that is written at the end; that this fails is only reported. -/
def finishProfiles (p : Parsed) : Run Unit := do
  let heap := p.text "mem-profile" []
  if heap ≠ [] then
    match (← get).tree.write heap [] with
    | .ok tree => modify fun s => { s with tree }
    | .error e => Run.report ("failed to write profiles: heap profile: " ++ e.message ++ "\n")

/-- A trace and the place of the file it goes to, which is none if it is reported. -/
structure TraceOutput where
  tracer : Trace.Tracer := .silent
  place : Option (List Bytes) := none

def openTrace (p : Parsed) : Run TraceOutput := do
  let path := p.text "trace" []
  let given ← Run.orFail .traceSetting (Trace.Level.ofName (p.text "trace-level" "off"))
  let level := if given = .off ∧ path ≠ [] ∧ !p.isGiven "trace-level" then .phase else given
  if level = .off then return {}
  let format ← Run.orFail .traceSetting (Trace.Format.ofName (p.text "trace-format" "auto"))
  let tracer := Trace.Tracer.ofStream level (format.forPath path)
  if path = [] ∨ path = "-" then return { tracer }
  let (place, tree) ← Run.orFail .traceOutput ((← get).tree.create path)
  modify fun s => { s with tree }
  return { tracer, place := some place }

namespace TraceOutput

def write (o : TraceOutput) (t : Trace.Tracer) : Run Unit := do
  match o.place with
  | none => Run.report t.written
  | some place => if t.written ≠ [] then modify fun s => { s with tree := s.tree.fill place t.written }

/-- A directory is entered in the trace before its sources are read, and the trace may be one of them. -/
def enter (o : TraceOutput) (target : Bytes) : Run Unit := do
  if let .ok (_, true) := (← get).tree.targetSources target then
    if o.place.isSome then o.write (o.tracer.start .command "compile-dir" 0).2

end TraceOutput

/-! ## Building -/

/-- The cache that is asked for, made if it is missing. -/
def openCache (p : Parsed) (settings : BuildSettings) : Run (Option Bytes) := do
  let clean := p.switch "clean-cache"
  if settings.cache ∨ clean then
    let dir := Path.join [(← read).cacheHome, toolName]
    let tree ← Run.orFail .cache ((← get).tree.makeDirectories dir)
    modify fun s => { s with tree := if clean then tree.renewDirectory dir else tree }
    return if settings.cache then some dir else none
  else return none

def reportDiagnostics (p : Parsed) (format : Bytes) (c : CompiledTarget) : Run Unit := do
  let bag := c.files.foldl (fun (b : Bag) f => b.merge f.bag) (Bag.ofLimit 0)
  if format = "json" then
    let opts : DocumentOptions := { positions := true, notes := true }
    Run.print (bag.report (some c.fileSet) opts (← get).tree.workDir).toJson.document
  else if bag.items ≠ [] ∨ bag.dropped ≠ 0 then
    let coloured ← reportPretty p c.fileSet bag
    if !p.switch "quiet" then Run.report (bag.summary coloured)

/-- How long the stages took, and then the phases of each file. -/
def timingReport (c : CompiledTarget) : Bytes :=
  let stage (s : Stage) : Bytes := Utf8.padRight 8 s.name ++ " " ++ (0 : Duration).milliseconds 1 ++ " ms\n"
  let runs := c.files.flatMap fun f => f.phases.map fun r => (r, f.path)
  let timer := runs.foldl (fun (t : Timer) (r, path) =>
    let (step, t) := t.begin 0 r.phase.name
    t.finish 0 step (r.timingNote path)) {}
  c.stages.flatMap stage ++ timer.summary

def runPlan (p : Parsed) (format : Bytes) (plan : BuildPlan) : Run Unit := do
  let trace ← openTrace p
  let cacheDir? ← openCache p plan.settings
  let request : BuildRequest :=
    { target := plan.target, base := plan.base, cacheDir?, out := p.text "out" []
      options := { strict := plan.settings.strict, limit := plan.settings.maxDiagnostics } }
  trace.enter plan.target
  let tree := (← get).tree
  let o := tree.compileTarget request
  modify fun s => { s with tree := o.tree }
  if trace.tracer.isEnabled then trace.write (tree.traceTarget request trace.tracer)
  let o := { o with tree := (← get).tree }.emitted (outputRoot request) plan.format
  modify fun s => { s with tree := o.tree }
  let c := o.compiled.getD {}
  if let some e := o.error then throw (.build e)
  reportDiagnostics p format c
  if !p.switch "quiet" then Run.print (o.outputs.flatMap fun path => "wrote " ++ path ++ "\n")
  if p.switch "timings" then Run.report (timingReport c)
  if c.hasErrors then throw .buildFailed

/-- Builds a target. Without a terminal there is no screen, so the setting for it is only checked. -/
def runBuild (p : Parsed) : Run Unit := do
  let format := p.text "format" "pretty"
  if format ≠ "pretty" ∧ format ≠ "json" then throw (.unknownFormat format)
  let screen := (Utf8.trim (p.text "ui" "auto")).lower
  let screens : List Bytes := ["", "auto", "on", "off"]
  if !screens.contains screen then throw (.badProgress (p.text "ui" "auto"))
  let plan ← planBuild p
  startProfiles p
  try runPlan p format plan finally finishProfiles p

end LetStack.CommandLine
