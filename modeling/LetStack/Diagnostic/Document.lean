import LetStack.Diagnostic.Pretty

/-!
Diagnostics as JSON: a list of at most so many of them, how many the list has, and how many are
missing.
-/

namespace LetStack

structure DocumentOptions where
  /-- Whether lines and columns are given. -/
  positions : Bool := false
  notes : Bool := false
  /-- How many diagnostics are listed; any number if not positive. -/
  limit : Int := 0
  pathStyle : PathStyle := .auto
  deriving Repr, Inhabited

structure Location where
  file : Bytes
  start : UInt32 := 0
  stop : UInt32 := 0
  first : Position := {}
  last : Position := {}
  deriving DecidableEq, Repr, Inhabited

/-- Where a span lies; for a span of nothing only the file is known. -/
def Location.ofSpan (fs? : Option FileSet) (opts : DocumentOptions) (workDir : Bytes) (file : FileId)
    (span : Span) : Location :=
  let bare : Location := { file := shownPathOf fs? file opts.pathStyle workDir }
  if span.isEmpty then bare
  else
    match fs? with
    | some fs =>
      if opts.positions then
        let (first, last) := fs.resolve file span
        { bare with start := span.start, stop := span.stop, first, last }
      else { bare with start := span.start, stop := span.stop }
    | none => { bare with start := span.start, stop := span.stop }

def Location.toJson (l : Location) : Json.Value :=
  let position (name : String) (n : UInt32) := Json.fieldUnless (n = 0) name (.ofWord n)
  .record (Json.field "file" (.text l.file) ++ Json.field "start_byte" (.ofWord l.start) ++
    Json.field "end_byte" (.ofWord l.stop) ++
    position "start_line" l.first.line ++ position "start_col" l.first.column ++
    position "end_line" l.last.line ++ position "end_col" l.last.column)

structure ReportedNote where
  message : Bytes
  location : Location
  deriving DecidableEq, Repr, Inhabited

structure ReportedDiagnostic where
  severity : Bytes
  code : Bytes
  title : Bytes
  message : Bytes
  location : Location
  notes : List ReportedNote := []
  deriving DecidableEq, Repr, Inhabited

/-- What the document says. -/
structure DiagnosticReport where
  diagnostics : List ReportedDiagnostic
  count : Nat
  dropped : Int64
  deriving DecidableEq, Repr, Inhabited

namespace Diagnostic

def report (d : Diagnostic) (fs? : Option FileSet) (opts : DocumentOptions) (workDir : Bytes) : ReportedDiagnostic where
  severity := d.severity.name
  code := d.code.id
  title := d.code.title
  message := d.message
  location := .ofSpan fs? opts workDir d.file d.span
  notes :=
    if opts.notes then d.notes.map fun n => ⟨n.message, .ofSpan fs? opts workDir d.file n.span⟩ else []

end Diagnostic

namespace Bag

/-- How many diagnostics a document with a limit lists. -/
def listedCount (b : Bag) (limit : Int) : Nat :=
  if 0 < limit ∧ limit < b.items.length then limit.toNat else b.items.length

def report (b : Bag) (fs? : Option FileSet) (opts : DocumentOptions) (workDir : Bytes) : DiagnosticReport :=
  let n := b.listedCount opts.limit
  { diagnostics := (b.items.take n).map fun d => d.report fs? opts workDir
    count := n
    dropped := b.dropped + Int64.ofNat (b.items.length - n) }

end Bag

def ReportedNote.toJson (n : ReportedNote) : Json.Value :=
  .record (Json.field "message" (.text n.message) ++ Json.field "location" n.location.toJson)

def ReportedDiagnostic.toJson (d : ReportedDiagnostic) : Json.Value :=
  .record (Json.field "severity" (.text d.severity) ++ Json.field "code" (.text d.code) ++
    Json.field "title" (.text d.title) ++ Json.field "message" (.text d.message) ++
    Json.field "location" d.location.toJson ++
    Json.fieldUnless d.notes.isEmpty "notes" (.list (d.notes.map ReportedNote.toJson)))

def DiagnosticReport.toJson (r : DiagnosticReport) : Json.Value :=
  .record (Json.field "diagnostics" (.list (r.diagnostics.map ReportedDiagnostic.toJson)) ++
    Json.field "count" (.ofNat r.count) ++
    Json.fieldUnless (r.dropped = 0) "dropped" (.number r.dropped.toInt))

end LetStack
