import LetStack.Compile.Stored
import LetStack.Token.Lexer
import LetStack.Trace.Tracer

/-!
Compiling under a tracer. The file, each phase and the walk over the module are spans, which are begun and ended where
they begin and end: a phase on every way out of it, the file and the walk when their functions return. What is inside a
span is told its number; that of a span which is not recorded is 0.
-/

namespace LetStack
open Trace

namespace Lower
open Ast

def nodeName (i : Nat) : Bytes := "node#" ++ Bytes.ofNat i

/-- Lowers nodes one after another, from the one with index `i` on, with a point for each. -/
def traceNodes (opts : Options) (b : Builder) (span : UInt64) (i : Nat) (c : Context) (t : Tracer) :
    List NodeId → Walk × Tracer
  | [] => ({ context := c }, t)
  | id :: rest =>
    let s := lowerNode b c.scope id
    match s.lowered.outcome with
    | .done =>
      let t := t.point .statement (nodeName i) "ok" span
      let (walk, t) := traceNodes opts b span (i + 1) (c.commit s) t rest
      ({ walk with reports := none :: walk.reports }, t)
    | .fault f =>
      let c := (c.discard s).report opts f.diagnostic
      let t := t.point .statement (nodeName i) f.render span
      if opts.strict ∧ f.kind = .unimplemented then
        ({ context := c, reports := [some f], ending := .aborted f }, t)
      else
        let (walk, t) := traceNodes opts b span (i + 1) c t rest
        ({ walk with reports := some f :: walk.reports }, t)
    | .broken d => ({ context := { c with program := c.program.append s.lowered.code }, ending := .broken d }, t)

/-- Lowers a module. The walk is over, however it ends, when its nodes and its failed nodes have been counted. -/
def traceModule (opts : Options) (b : Builder) (parent : UInt64) (c : Context) (t : Tracer) (id : ModuleId) :
    Walk × Tracer :=
  match b.module? id with
  | none => ({ context := c, ending := .noModule id }, t)
  | some m =>
    let (span, t) := t.start .pass "codegen" parent
    let (walk, t) := traceNodes opts b span.id 0 c t m.nodes
    let counted := (span.withExtra "nodes" (Bytes.ofNat m.nodes.length)).withExtra "failed"
      (Bytes.ofNat (walk.reports.countP Option.isSome))
    (walk, t.stop counted [])

end Lower

/-- Why there is no outcome of a compilation. -/
inductive CompileError where
  /-- The offsets of the text are no words. -/
  | tooLarge (name : Bytes)
  | unknownFile (id : FileId)
  /-- The parser met a failure that is none of the grammar's own. -/
  | parse (path : Bytes) (failure : Grammar.Failure)
  /-- The module is missing. -/
  | lowering (path reason : Bytes)
  /-- The tree is broken, or bytes outside of a text were asked for. -/
  | broken (d : Ast.Defect)
  deriving Inhabited

def CompileError.message? : CompileError → Option Bytes
  | parse path failure => some ("parse " ++ path ++ ": " ++ failure.message)
  | lowering path reason => some ("codegen " ++ path ++ ": " ++ reason)
  | unknownFile id => some ("compile: unknown file id " ++ Bytes.ofNat id)
  | tooLarge _ | broken _ => none

/-- The failure of a parse is one of the grammar's own, which becomes a diagnostic. -/
def Grammar.Failure.isOwn (failure : Failure) : Bool :=
  match failure.error.reason with
  | .foreign _ none => false
  | _ => true

namespace Compilation

def traceLowering (opts : CompileOptions) (f : SourceFile) (parent : UInt64) (c : Compilation) (b : Ast.Builder)
    (id : Ast.ModuleId) (t : Tracer) : Except CompileError Compilation × Tracer :=
  let (span, t) := t.start .pass Phase.codegen.name parent
  let (walk, t) := Lower.traceModule (lowering opts f) b span.id (lowerStart f) t id
  match walk.ending with
  | .broken d => (.error (.broken d), t)
  | .noModule id =>
    let reason := ((Lower.Ending.noModule id).message?).getD []
    (.error (.lowering f.path reason), t.stop span reason)
  | .finished | .aborted _ => (.ok (c.lowered walk), t.stop span (codegenRun walk).note)

def traceParsing (opts : CompileOptions) (f : SourceFile) (parent : UInt64) (c : Compilation) (toks : List Token)
    (t : Tracer) : Except CompileError Compilation × Tracer :=
  let (span, t) := t.start .pass Phase.parse.name parent
  match Grammar.buildModule {} toks with
  | (.error failure, _) =>
    if failure.isOwn then (.ok (c.unparsed f failure), t.stop span [])
    else
      let e := CompileError.parse f.path failure
      (.error e, t.stop span (e.message?.getD []))
  | (.ok id, b) => traceLowering opts f parent (c.parsed id b) b id (t.stop span [])

def traceFresh (opts : CompileOptions) (f : SourceFile) (parent : UInt64) (t : Tracer) :
    Except CompileError Compilation × Tracer :=
  let (span, t) := t.start .pass Phase.lex.name parent
  match Lexer.tokenize? f.content with
  | none => (.error (.broken .outOfRange), t)
  | some toks => traceParsing opts f parent ((blank opts f).scanned f toks) toks (t.stop span (lexRun toks).note)

end Compilation

namespace FileTree

/-- Compiles a file anew after the cache was asked, and keeps the outcome. -/
def traceAnew (tree : FileTree) (opts : CompileOptions) (dir : Bytes) (f : SourceFile) (note : Bytes)
    (parent : UInt64) (t : Tracer) : Except CompileError (Compilation × FileTree) × Tracer :=
  match Compilation.traceFresh opts f parent t with
  | (.error e, t) => (.error e, t)
  | (.ok c, t) =>
    let c := { c with phases := { phase := .cache, note } :: c.phases }
    match tree.putEntry dir (cacheKey f.hash opts) (c.entry f) with
    | .ok tree => (.ok (c, tree), t)
    | .error e => (.ok (c, tree), t.point .pass Phase.cache.name ("store failed: " ++ e.message) parent)

def traceCompile (tree : FileTree) (opts : CompileOptions) (cacheDir? : Option Bytes) (f : SourceFile)
    (parent : UInt64) (t : Tracer) : Except CompileError (Compilation × FileTree) × Tracer :=
  match cacheDir? with
  | none =>
    let (outcome, t) := Compilation.traceFresh opts f parent t
    (outcome.map (·, tree), t)
  | some dir =>
    let (span, t) := t.start .pass Phase.cache.name parent
    match CacheAnswer.ofStored (tree.read (entryPath dir (cacheKey f.hash opts))).toOption with
    | .miss => tree.traceAnew opts dir f "miss" parent (t.stop span "miss")
    | .corrupt => tree.traceAnew opts dir f "corrupt" parent (t.stop span "corrupt")
    | .hit e p => (.ok (.ofEntry opts f e p, tree), t.stop span ("hit " ++ (cacheKey f.hash opts).short))

/-- Compiles a file, asking the cache first if there is one. -/
def traceFile (tree : FileTree) (opts : CompileOptions) (cacheDir? : Option Bytes) (f : SourceFile)
    (parent : UInt64) (t : Tracer) : Except CompileError (Compilation × FileTree) × Tracer :=
  let (span, t) := t.start .file f.path parent
  let (outcome, t) := tree.traceCompile opts cacheDir? f span.id t
  (outcome, t.stop span [])

def traceText (tree : FileTree) (opts : CompileOptions) (cacheDir? : Option Bytes) (name content : Bytes)
    (parent : UInt64) (t : Tracer) : Except CompileError (Compilation × FileTree) × Tracer :=
  if UInt32.size ≤ content.length then (.error (.tooLarge name), t)
  else
    let (id, fs) := ({} : FileSet).addVirtual name content
    match fs.get? id with
    | none => (.error (.unknownFile id), t)
    | some f => tree.traceFile opts cacheDir? f parent t

def traceAll (tree : FileTree) (opts : CompileOptions) (cacheDir? : Option Bytes) (parent : UInt64) (t : Tracer) :
    List Loaded → Tracer
  | [] => t
  | .failed _ _ :: rest => tree.traceAll opts cacheDir? parent t rest
  | .file f :: rest =>
    match tree.traceFile opts cacheDir? f parent t with
    | (.ok (_, tree), t) => tree.traceAll opts cacheDir? parent t rest
    | (.error _, t) => t

def traceDirectory (tree : FileTree) (opts : CompileOptions) (cacheDir? : Option Bytes) (dir : Bytes)
    (sources : List Bytes) (t : Tracer) : Tracer :=
  let (span, t) := t.start .command "compile-dir" 0
  (tree.traceAll opts cacheDir? span.id t (tree.load { base := dir } sources).2).stop span []

end FileTree

end LetStack
