import LetStack.CommandLine.Build
import LetStack.CommandLine.Help
import LetStack.CommandLine.Inspect

/-!
Running a command line: the words name a command, its flags are read, and the command is run on a tree
of files.
-/

namespace LetStack.CommandLine

structure Outcome where
  exitCode : Nat := 0
  output : Bytes := []
  errors : Bytes := []
  tree : FileTree
  deriving Inhabited

def showHelp (words : List Bytes) : Run Unit :=
  match route words with
  | .root _ => Run.print rootHelp
  | .command c _ => Run.print c.helpText
  | .unknown _ => Run.report (unknownTopic words)

/-- The one word that a command wants. -/
def onlyWord (p : Parsed) : Run Bytes :=
  match p.words with
  | [word] => pure word
  | words => throw (.argumentCount 1 words.length)

def Command.run (c : Command) (p : Parsed) : Run Unit := do
  match c with
  | .tokenize => showTokens p (← onlyWord p)
  | .parse => showTree p (← onlyWord p)
  | .build =>
    if 1 < p.words.length then throw (.tooManyArguments 1 p.words.length)
    runBuild p
  | .version =>
    if let word :: _ := p.words then throw (.noArgument c word)
    showVersion p
  | .help => showHelp p.words
  | .completion => Run.print c.helpText

def runCommand (c : Command) (args : List Bytes) : Run Unit := do
  let p ← Run.orFail .flags (parse c.flags args)
  if p.switch "help" then Run.print c.helpText else c.run p

def runRoot (args : List Bytes) : Run Unit := do
  let p ← Run.orFail .flags (parse rootFlags args)
  if !p.switch "help" ∧ p.switch "version" then
    Run.print (toolName ++ Bytes.ofString " version " ++ (← read).version.release ++ "\n")
  else Run.print rootHelp

def unknownCommand (word : Bytes) : Bytes :=
  let near : List Bytes := (suggestions word).map fun name => "\t" ++ name ++ "\n"
  let hint : Bytes := if near = [] then [] else "\n\nDid you mean this?\n" ++ near.flatten
  "Error: unknown command " ++ Text.quote word ++ " for " ++ Text.quote toolName ++ hint ++
    "\nRun 'ranoc --help' for usage.\n"

/-- Runs a command line on a tree of files. -/
def run (env : Environment) (tree : FileTree) (args : List Bytes) : Outcome :=
  let outcome (x : Run Unit) : Outcome :=
    match (x.run env).run.run { tree } with
    | (.ok _, s) => { output := s.output, errors := s.errors, tree := s.tree }
    | (.error e, s) =>
      { exitCode := 1, output := s.output, errors := s.errors ++ ("Error: " ++ e.message ++ "\n" : Bytes), tree := s.tree }
  match route args with
  | .root args => outcome (runRoot args)
  | .command c args => outcome (runCommand c args)
  | .unknown word => { exitCode := 1, errors := unknownCommand word, tree }

end LetStack.CommandLine
