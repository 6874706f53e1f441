import LetStack.Diagnostic.Bag
import LetStack.Diagnostic.Snippet
import LetStack.Text.Width
import LetStack.Token.Listing

/-!
Diagnostics for people: a headline with place, severity, code and message, the lines of source it is
about, and its notes; and a summary of how many there are.
-/

namespace LetStack
open Text

/-- The path of a file as it is shown, if the file is known. -/
def shownPathOf (fs? : Option FileSet) (file : FileId) (style : PathStyle) (workDir : Bytes) : Bytes :=
  match fs? with
  | none => "<unknown>"
  | some fs =>
    match fs.get? file with
    | none => "<unknown>"
    | some f => f.shownPath style (fs.baseDir workDir) workDir

structure PrettyOptions where
  coloured : Bool := false
  /-- How many lines above the first line of a diagnostic are shown. -/
  context : Int := 0
  pathStyle : PathStyle := .auto
  notes : Bool := false
  deriving Repr, Inhabited

/-- `path:line:column`, or the path alone for a span of nothing. -/
def placeOf (fs? : Option FileSet) (file : FileId) (span : Span) (style : PathStyle) (workDir : Bytes) : Bytes :=
  let path := shownPathOf fs? file style workDir
  match fs? with
  | none => path
  | some fs => if span.isEmpty then path else path ++ ":" ++ (fs.resolve file span).1.render

def Severity.style : Severity → Style
  | error => { colour := some .red, bold := true }
  | warning => { colour := some .yellow, bold := true }
  | info | unknown _ => { colour := some .cyan, bold := true }

def codeStyle : Style := { bold := true }
def noteStyle : Style := { colour := some .cyan }

namespace Diagnostic

def headline (d : Diagnostic) (fs? : Option FileSet) (opts : PrettyOptions) (workDir : Bytes) : Bytes :=
  placeOf fs? d.file d.span opts.pathStyle workDir ++ ": " ++
    d.severity.style.paint opts.coloured d.severity.name ++ " " ++
    codeStyle.paint opts.coloured d.code.id ++ ": " ++ d.message ++ "\n"

def noteLine (d : Diagnostic) (fs? : Option FileSet) (opts : PrettyOptions) (workDir : Bytes) (n : Note) : Bytes :=
  "  " ++ noteStyle.paint opts.coloured "note:" ++ " " ++
    placeOf fs? d.file n.span opts.pathStyle workDir ++ ": " ++ n.message ++ "\n"

/-- One diagnostic with its snippet; none if its span starts behind every column there can be. -/
def pretty? (d : Diagnostic) (fs? : Option FileSet) (opts : PrettyOptions) (workDir : Bytes) : Option Bytes :=
  (Snippet.ofSpan? width opts.coloured opts.context fs? d.file d.span).map fun snippet =>
    d.headline fs? opts workDir ++ snippet ++
      (if opts.notes then d.notes.flatMap (d.noteLine fs? opts workDir) else [])

end Diagnostic

/-- `1 error`, `2 errors`. -/
def countOf (n : Nat) (word : Bytes) : Bytes :=
  if n = 1 then "1 " ++ word else Bytes.ofNat n ++ " " ++ word ++ "s"

namespace Bag

/-- All diagnostics in the order of the bag. -/
def pretty? (b : Bag) (fs? : Option FileSet) (opts : PrettyOptions) (workDir : Bytes) : Option Bytes :=
  (b.items.mapM fun (d : Diagnostic) => d.pretty? fs? opts workDir).map List.flatten

/-- How many errors and warnings there are and how many diagnostics are not shown; empty for
nothing. A count of dropped diagnostics below zero is not told, and alone leaves the line blank. -/
def summary (b : Bag) (coloured : Bool) : Bytes :=
  let errors := b.items.countP (·.severity = .error)
  let warnings := b.items.countP (·.severity = .warning)
  let part (told : Bool) (x : Bytes) : List Bytes := if told then [x] else []
  let parts :=
    part (0 < errors) (Severity.error.style.paint coloured (countOf errors "error")) ++
    part (0 < warnings) (Severity.warning.style.paint coloured (countOf warnings "warning")) ++
    part (0 < b.dropped) (Bytes.ofInt b.dropped.toInt ++ " more not shown")
  if errors = 0 ∧ warnings = 0 ∧ b.dropped = 0 then [] else Bytes.join ", " parts ++ "\n"

end Bag

end LetStack
