import LetStack.Diagnostic.Code
import LetStack.Token.Basic

/-!
A diagnostic: what is wrong, how badly, in which file and where, with notes that explain it.
-/

namespace LetStack

/-- The number of a file in its file set. -/
abbrev FileId := Nat

structure Note where
  span : Span
  message : Bytes
  deriving DecidableEq, Repr, Inhabited

structure Diagnostic where
  severity : Severity
  code : Code
  message : Bytes
  file : FileId := 0
  span : Span
  notes : List Note := []
  deriving DecidableEq, Repr, Inhabited

namespace Diagnostic

def error (code : Code) (span : Span) (message : Bytes) : Diagnostic :=
  { severity := .error, code, message, span }

def warning (code : Code) (span : Span) (message : Bytes) : Diagnostic :=
  { severity := .warning, code, message, span }

def withNote (d : Diagnostic) (span : Span) (message : Bytes) : Diagnostic :=
  { d with notes := d.notes ++ [{ span, message }] }

def inFile (d : Diagnostic) (file : FileId) : Diagnostic := { d with file }

/-- One warning for every token of unrecognized input. -/
def ofTokens (file : FileId) (toks : List Token) : List Diagnostic :=
  (toks.filter (·.kind == .invalid)).map fun t =>
    (warning .unrecognizedInput t.span "unrecognized input").inFile file

/-- The order of a sorted listing: by file, start and end; then the more severe first, then by code. -/
def listedBefore (a b : Diagnostic) : Bool :=
  if a.file ≠ b.file then a.file < b.file
  else if a.span.start ≠ b.span.start then a.span.start < b.span.start
  else if a.span.stop ≠ b.span.stop then a.span.stop < b.span.stop
  else if a.severity ≠ b.severity then b.severity.level < a.severity.level
  else a.code.number < b.code.number

end Diagnostic

end LetStack
