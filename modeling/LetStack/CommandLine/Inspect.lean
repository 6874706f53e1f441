import LetStack.Ast.Listing
import LetStack.CommandLine.Session
import LetStack.Grammar.Building
import LetStack.Token.Listing

/-!
The commands that show something: the tokens of a file, its tree, and the version of the compiler.
-/

namespace LetStack.CommandLine

/-- A source file with its tokens and what is wrong with them. -/
structure Scanned where
  fileSet : FileSet
  file : FileId
  tokens : List Token
  bag : Bag

/-- Scans the file at a path. -/
def scanFile (asError : FileError → CommandError) (limit : Int) (path : Bytes) : Run Scanned := do
  let content ← Run.orFail asError ((← get).tree.read path)
  let (file, fileSet) := ({} : FileSet).addLoaded path content
  let tokens := tokenize (((fileSet.get? file).map (·.content)).getD [])
  return { fileSet, file, tokens, bag := (Bag.ofLimit limit).addAll (Diagnostic.ofTokens file tokens) }

def showTokens (p : Parsed) (path : Bytes) : Run Unit := do
  let s ← scanFile .notTokenized (diagnosticLimit p) path
  if s.bag.items ≠ [] then let _ ← reportPretty p s.fileSet s.bag
  let format := p.text "format" "pretty"
  if format = "pretty" then Run.print (Token.listing s.fileSet s.file s.tokens)
  else if format = "json" then Run.print (Token.document s.tokens)
  else throw (.unknownFormat format)

def showTree (p : Parsed) (path : Bytes) : Run Unit := do
  let format := p.text "format" "pretty"
  if format ≠ "pretty" ∧ format ≠ "json" then throw (.unknownFormat format)
  let s ← scanFile .notParsed (diagnosticLimit p) path
  let (built, b) := Grammar.buildModule {} s.tokens
  let bag := match built with
    | .error failure => s.bag.add (failure.diagnostic s.file)
    | .ok _ => s.bag
  if bag.items ≠ [] then let _ ← reportPretty p s.fileSet bag
  let .ok id := built | throw (.malformed path)
  let some (.ok outline) := b.outline? id | throw (.malformed path)
  Run.print (if format = "json" then outline.document else outline.listing (some s.fileSet) s.file)

def showVersion (p : Parsed) : Run Unit := do
  let format := p.text "format" "pretty"
  let coloured ← useColour p (← read).outputIsTerminal
  let v := (← read).version.tidy
  let known (x : Bytes) : Bytes := if x = [] then "unknown" else x
  let hash := p.switch "hash" || p.switch "full"
  let date := p.switch "date" || p.switch "full"
  if format.lower = "pretty" then
    Run.print (toolName ++ Bytes.ofString " " ++ Version.paint v.release coloured ++ "\n")
    if hash then Run.print ("commit: " ++ known v.commit ++ "\n")
    if date then Run.print ("built:  " ++ known v.date ++ "\n")
  else if format.lower = "json" then
    Run.print (Json.Value.record
      (Json.field "tool" (.text toolName) ++ Json.field "version" (.text v.release) ++
        Json.fieldUnless (!hash) "git_commit" (.text (known v.commit)) ++
        Json.fieldUnless (!date) "build_date" (.text (known v.date)))).document
  else throw (.unsupportedFormat format)

end LetStack.CommandLine
