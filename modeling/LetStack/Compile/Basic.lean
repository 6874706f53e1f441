import LetStack.Compile.Phase
import LetStack.Digest.Basic
import LetStack.Grammar.Building
import LetStack.Lower.Module
import LetStack.Source.FileSet
import LetStack.Token.Scanner

/-!
Compiling one file: scan, parse and lower it. Errors do not stop a compilation, they are collected in
its bag; only a file that cannot be parsed is not lowered.
-/

namespace LetStack

structure CompileOptions where
  /-- Stop lowering at the first unsupported feature. -/
  strict : Bool := false
  /-- How many diagnostics are kept for a file; any number if not positive. -/
  limit : Int := 0
  deriving DecidableEq, Repr, Inhabited

structure Compilation where
  path : Bytes
  /-- The file, none if it could not be read. -/
  file : Option FileId := none
  /-- The module, if the file was parsed. -/
  module : Option (Ast.ModuleId × Ast.Builder) := none
  /-- The code of every statement that could be lowered. -/
  program : Machine.Program
  bag : Bag
  /-- Whether the outcome was taken from the cache. -/
  cached : Bool := false
  /-- Whether strict mode stopped the lowering. -/
  aborted : Bool := false
  phases : List Phase.Run := []
  deriving Inhabited

namespace Compilation

def hasFailed (c : Compilation) : Bool := c.bag.hasErrors

def events (c : Compilation) : List Phase.Event :=
  if c.file.isSome then c.phases.flatMap (·.events c.path) else [⟨c.path, .load, .failed⟩]

def blank (opts : CompileOptions) (f : SourceFile) : Compilation where
  path := f.path
  file := some f.id
  program := { source := f.path }
  bag := .ofLimit opts.limit

/-- The outcome with a phase that is over. -/
def ran (c : Compilation) (r : Phase.Run) : Compilation := { c with phases := c.phases ++ [r] }

/-! ## Phases -/

def lexRun (toks : List Token) : Phase.Run := { phase := .lex, note := Bytes.ofNat toks.length ++ " tokens" }

def parseRun (failed : Bool) : Phase.Run := { phase := .parse, failed }

def codegenRun (walk : Lower.Walk) : Phase.Run where
  phase := .codegen
  note := Bytes.ofNat walk.context.program.length ++ " instrs"
  failed := walk.context.bag.hasErrors

/-- Takes over the warnings of the scanner. -/
def scanned (c : Compilation) (f : SourceFile) (toks : List Token) : Compilation :=
  { c with bag := c.bag.addAll (Diagnostic.ofTokens f.id toks) }.ran (lexRun toks)

/-- Takes over why a file is not parsed. -/
def unparsed (c : Compilation) (f : SourceFile) (failure : Grammar.Failure) : Compilation :=
  { c with bag := c.bag.add (failure.diagnostic f.id) }.ran (parseRun true)

/-- Takes over the module of a file. -/
def parsed (c : Compilation) (id : Ast.ModuleId) (b : Ast.Builder) : Compilation :=
  { c with module := some (id, b) }.ran (parseRun false)

/-- Takes over what the walk over the module of a file comes to. -/
def lowered (c : Compilation) (walk : Lower.Walk) : Compilation :=
  { c with
    program := walk.context.program
    bag := c.bag.addAll walk.context.bag.items
    aborted := match walk.ending with
      | .aborted _ => true
      | _ => false }.ran (codegenRun walk)

/-- How the module of a file is lowered. -/
def lowering (opts : CompileOptions) (f : SourceFile) : Lower.Options := { strict := opts.strict, file := f.id }

/-- Where the lowering of a file starts. -/
def lowerStart (f : SourceFile) : Lower.Context := { program := { source := f.path } }

def fresh (opts : CompileOptions) (f : SourceFile) : Compilation :=
  let toks := tokenize f.content
  let c := (blank opts f).scanned f toks
  match Grammar.buildModule {} toks with
  | (.error failure, _) => c.unparsed f failure
  | (.ok id, b) => (c.parsed id b).lowered (Lower.walkModule (lowering opts f) b (lowerStart f) id)

/-- The outcome for a file that could not be read. -/
def unreadable (opts : CompileOptions) (path reason : Bytes) : Compilation where
  path := path
  program := { source := path }
  bag := (Bag.ofLimit opts.limit).add
    (.error .unreadableFile .empty ("failed to load file: " ++ reason))

/-- Compiles a text that is no file. -/
def ofText (opts : CompileOptions) (name content : Bytes) : Compilation × FileSet :=
  let (id, fs) := ({} : FileSet).addVirtual name content
  match fs.get? id with
  | some f => (fresh opts f, fs)
  | none => (unreadable opts name [], fs)

end Compilation

end LetStack
