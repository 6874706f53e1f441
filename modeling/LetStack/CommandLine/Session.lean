import LetStack.CommandLine.Command
import LetStack.Diagnostic.Document
import LetStack.Diagnostic.Pretty
import LetStack.Manifest.Find
import LetStack.Version

/-!
What a command works on: files, the two outputs, and what is known about the surroundings. A command
that fails keeps what it has written so far.
-/

namespace LetStack.CommandLine

structure Environment where
  cacheHome : Bytes
  outputIsTerminal : Bool := false
  errorsAreTerminal : Bool := false
  version : Version := {}
  deriving Repr, Inhabited

structure Session where
  tree : FileTree
  output : Bytes := []
  errors : Bytes := []
  deriving Inhabited

inductive CommandError where
  | flags (e : FlagError)
  | argumentCount (wanted received : Nat)
  | tooManyArguments (limit received : Nat)
  | noArgument (command : Command) (word : Bytes)
  | unknownFormat (name : Bytes)
  | unsupportedFormat (name : Bytes)
  | badColour (value : Bytes)
  | badProgress (value : Bytes)
  | badEmit (value : Bytes)
  | notTokenized (e : FileError)
  | notParsed (e : FileError)
  | malformed (path : Bytes)
  | badTarget (e : FileError)
  | search (e : SearchError)
  | manifest (path : Bytes) (e : ManifestError)
  | cpuProfile (e : FileError)
  | runTrace (e : FileError)
  | traceSetting (problem : Bytes)
  | traceOutput (e : FileError)
  | cache (e : FileError)
  | build (e : BuildError)
  | buildFailed
  deriving Inhabited

namespace CommandError

def message : CommandError → Bytes
  | flags e => e.message
  | argumentCount wanted received =>
    "accepts " ++ Bytes.ofNat wanted ++ " arg(s), received " ++ Bytes.ofNat received
  | tooManyArguments limit received =>
    "accepts at most " ++ Bytes.ofNat limit ++ " arg(s), received " ++ Bytes.ofNat received
  | noArgument command word =>
    "unknown command " ++ Text.quote word ++ " for " ++ Text.quote (toolName ++ Bytes.ofString " " ++ command.name)
  | unknownFormat name => "unknown format: " ++ name
  | unsupportedFormat name => "unsupported format " ++ Text.quote name ++ " (must be pretty or json)"
  | badColour value => "invalid --color value " ++ Text.quote value ++ " (expected auto|on|off)"
  | badProgress value => "invalid --ui value " ++ Text.quote value ++ " (expected auto|on|off)"
  | badEmit value => "invalid --emit value " ++ Text.quote value ++ " (expected none|ir|msgpack)"
  | notTokenized e => "tokenization failed: " ++ e.message
  | notParsed e => "parsing failed: " ++ e.message
  | malformed path => path ++ ": syntax error"
  | badTarget e => "failed to stat path: " ++ e.message
  | search e => e.message
  | manifest path e => e.message path
  | cpuProfile e => "cpu profile: " ++ e.message
  | runTrace e => "runtime trace: " ++ e.message
  | traceSetting problem => problem
  | traceOutput e => "failed to create tracer: failed to open trace output: " ++ e.message
  | cache e => e.message
  | build e => e.message
  | buildFailed => "build failed"

end CommandError

/-- A command that is run: it may fail, and changes the session up to there. -/
abbrev Run := ReaderT Environment (ExceptT CommandError (StateM Session))

namespace Run

def print (x : Bytes) : Run Unit := modify fun s => { s with output := s.output ++ x }
def report (x : Bytes) : Run Unit := modify fun s => { s with errors := s.errors ++ x }

/-- Goes on with a result, or fails with an error that is put in the words of commands. -/
def orFail {ε α : Type} (asError : ε → CommandError) : Except ε α → Run α
  | .ok a => pure a
  | .error e => throw (asError e)

/-- Writes a file that may be there already. -/
def writeFile (asError : FileError → CommandError) (path content : Bytes) : Run Unit := do
  let tree ← orFail asError ((← get).tree.write path content)
  modify fun s => { s with tree }

end Run

/-- Whether output is coloured that goes to a terminal or not. -/
def useColour (p : Parsed) (isTerminal : Bool) : Run Bool :=
  let value := p.text "color" "auto"
  if value = "on" then pure true
  else if value = "off" then pure false
  else if value = "auto" ∨ value = [] then pure isTerminal
  else throw (.badColour value)

def diagnosticLimit (p : Parsed) : Int := p.number "max-diagnostics" 100

def reportPretty (p : Parsed) (fs : FileSet) (bag : Bag) : Run Bool := do
  let coloured ← useColour p (← read).errorsAreTerminal
  let opts : PrettyOptions := { coloured, context := 2, notes := true }
  Run.report ((bag.pretty? (some fs) opts (← get).tree.workDir).getD [])
  return coloured

end LetStack.CommandLine
