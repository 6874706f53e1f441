import LetStack.Compile.Basic
import LetStack.Machine.Packed

/-!
Outcomes of compilations that are kept for the next time. An entry is found by a key made of the
content of the file and of the options that bear on the outcome. What cannot be read as an entry is
no entry, and then the file is compiled again.
-/

namespace LetStack
open MessagePack

/-- What is kept of a compilation. -/
structure CacheEntry where
  schema : Nat := 0
  path : Bytes := []
  contentHash : Digest := List.replicate 32 0
  /-- The packed program. -/
  program : Bytes := []
  diagnostics : List Diagnostic := []
  dropped : Int64 := 0
  aborted : Bool := false
  deriving Repr, Inhabited

namespace CacheEntry

def currentSchema : Nat := 2

/-! ## Writing -/

def packSpan (s : Span) : Bytes :=
  writeRecord
    [("Start", writeWord32 s.start.toNat), ("End", writeWord32 s.stop.toNat),
     ("Line", writeWord32 s.line.toNat), ("Column", writeWord32 s.column.toNat),
     ("Len", writeWord32 s.length.toNat)]

def packNote (n : Note) : Bytes := writeRecord [("Span", packSpan n.span), ("Msg", writeText n.message)]

def packDiagnostic (d : Diagnostic) : Bytes :=
  writeRecord
    [("Severity", writeByte d.severity.level), ("Code", writeWord16 d.code.number),
     ("Message", writeText d.message), ("File", writeWord32 d.file), ("Primary", packSpan d.span),
     ("Notes", if d.notes = [] then writeNil else writeList packNote d.notes)]

def pack (e : CacheEntry) : Bytes :=
  writeRecord
    [("Schema", writeWord16 e.schema), ("Path", writeText e.path),
     ("ContentHash", writeBinary e.contentHash), ("Program", writeBinary e.program),
     ("Diagnostics", writeList packDiagnostic e.diagnostics),
     ("Dropped", writeInt64 e.dropped), ("Aborted", writeBool e.aborted)]

/-! ## Reading -/

def readWord : Reader UInt32 := do return UInt32.ofNat (← readNat 4)

def spanFields : Fields Span :=
  [("Start", fun s => do return { s with start := ← readWord }),
   ("End", fun s => do return { s with stop := ← readWord }),
   ("Line", fun s => do return { s with line := ← readWord }),
   ("Column", fun s => do return { s with column := ← readWord }),
   ("Len", fun s => do return { s with length := ← readWord })]

def readSpan (s : Span) : Reader Span := readRecord {} spanFields s

def blankNote : Note := { span := {}, message := [] }

def noteFields : Fields Note :=
  [("Span", fun n => do return { n with span := ← readSpan n.span }),
   ("Msg", fun n => do return { n with message := ← readText })]

/-- A diagnostic that is being read, with its notes apart. -/
structure DiagnosticDraft where
  head : Diagnostic := { severity := .info, code := .unknown, message := [], span := {} }
  notes : Slots Note := {}

def DiagnosticDraft.diagnostic (d : DiagnosticDraft) : Diagnostic := { d.head with notes := d.notes.items }

/-- A field of a diagnostic other than its notes. -/
def headField (read : Diagnostic → Reader Diagnostic) (d : DiagnosticDraft) : Reader DiagnosticDraft := do
  return { d with head := ← read d.head }

def diagnosticFields : Fields DiagnosticDraft :=
  [("Severity", headField fun d => do return { d with severity := .ofLevel (← readNat 1) }),
   ("Code", headField fun d => do return { d with code := ⟨← readNat 2⟩ }),
   ("Message", headField fun d => do return { d with message := ← readText }),
   ("File", headField fun d => do return { d with file := ← readNat 4 }),
   ("Primary", headField fun d => do return { d with span := ← readSpan d.span }),
   ("Notes", fun d => do return { d with notes := ← readSlots blankNote (readRecord blankNote noteFields) d.notes })]

/-- At most 32 bytes over the first ones of a digest. -/
def readDigest (d : Digest) : Reader Digest := do
  match ← textLength (← readByte) with
  | none => return d
  | some n => if 32 < n then failure else return (← readBytes n) ++ d.drop n

/-- An entry that is being read, with its diagnostics apart. -/
structure Draft where
  head : CacheEntry := {}
  diagnostics : Slots DiagnosticDraft := {}

def Draft.entry (d : Draft) : CacheEntry :=
  { d.head with diagnostics := d.diagnostics.items.map DiagnosticDraft.diagnostic }

/-- A field of an entry other than its diagnostics. -/
def entryField (read : CacheEntry → Reader CacheEntry) (d : Draft) : Reader Draft := do
  return { d with head := ← read d.head }

def fields : Fields Draft :=
  [("Schema", entryField fun e => do return { e with schema := ← readNat 2 }),
   ("Path", entryField fun e => do return { e with path := ← readText }),
   ("ContentHash", entryField fun e => do return { e with contentHash := ← readDigest e.contentHash }),
   ("Program", entryField fun e => do return { e with program := ← readText }),
   ("Diagnostics", fun d => do
     return { d with diagnostics := ← readSlots {} (readRecord {} diagnosticFields) d.diagnostics }),
   ("Dropped", entryField fun e => do return { e with dropped := ← readInt64 }),
   ("Aborted", entryField fun e => do return { e with aborted := ← readBool })]

/-- The entry in the bytes, if they are one of the current format. -/
def unpack? (x : Bytes) : Option CacheEntry :=
  match (readRecord {} fields {}).run x with
  | some (d, _) => if d.head.schema = currentSchema then some d.entry else none
  | none => none

end CacheEntry

def cacheKey (content : Digest) (opts : CompileOptions) : Digest :=
  Digest.combine content [Digest.sum
    ("ranoc/v" ++ Bytes.ofNat CacheEntry.currentSchema ++ " strict=" ++
      (if opts.strict then Bytes.ofString "true" else "false") ++ " max=" ++ Bytes.ofInt opts.limit)]

inductive CacheAnswer where
  /-- There is no entry that can be read. -/
  | miss
  /-- There is an entry whose program cannot be read. -/
  | corrupt
  | hit (entry : CacheEntry) (program : Machine.Program)
  deriving Inhabited

/-- The answer to be read off the stored bytes, if there are any, by what reads an entry and its program. -/
def CacheAnswer.ofStoredBy (unpackEntry : Bytes → Option CacheEntry)
    (unpackProgram : Bytes → Option Machine.Program) (stored : Option Bytes) : CacheAnswer :=
  match stored.bind unpackEntry with
  | none => miss
  | some e =>
    match unpackProgram e.program with
    | some p => hit e p
    | none => corrupt

def CacheAnswer.ofStored : Option Bytes → CacheAnswer :=
  ofStoredBy CacheEntry.unpack? fun x => (Machine.Program.unpack x).toOption

namespace Compilation

/-- What is kept of a compilation. -/
def entry (c : Compilation) (f : SourceFile) : CacheEntry where
  schema := CacheEntry.currentSchema
  path := c.path
  contentHash := f.hash
  program := c.program.pack
  diagnostics := c.bag.items
  dropped := c.bag.dropped
  aborted := c.aborted

/-- The outcome that an entry holds, for the file it is found for. -/
def ofEntry (opts : CompileOptions) (f : SourceFile) (e : CacheEntry) (p : Machine.Program) : Compilation :=
  let bag := ((Bag.ofLimit opts.limit).addAll (e.diagnostics.map (·.inFile f.id))).addDropped e.dropped
  { path := f.path, file := some f.id, program := { p with source := f.path }, bag, cached := true
    aborted := e.aborted
    phases := [{ phase := .cache, note := "hit " ++ (cacheKey f.hash opts).short, failed := bag.hasErrors }] }

/-- The outcome for a file after the cache was asked, and the entry to be kept if it is new. -/
def consulting (opts : CompileOptions) (f : SourceFile) (answer : CacheAnswer) : Compilation × Option CacheEntry :=
  let anew (note : Bytes) : Compilation × Option CacheEntry :=
    let c := fresh opts f
    let c := { c with phases := { phase := .cache, note } :: c.phases }
    (c, some (c.entry f))
  match answer with
  | .hit e p => (ofEntry opts f e p, none)
  | .miss => anew "miss"
  | .corrupt => anew "corrupt"

end Compilation

end LetStack
