import LetStack.Build.Basic
import LetStack.Text.Fold
import LetStack.Toml.Document

/-!
Manifests: the file `rano.toml` at the root of a project, which names the package and says how it is
built. Keys are taken as they are written, else regardless of case; a key without a meaning is an error.
-/

namespace LetStack

/-- How a project is built, unless the command line says otherwise. -/
structure BuildSettings where
  maxDiagnostics : Int := 100
  strict : Bool := false
  emit : Bytes := "none"
  cache : Bool := false
  jobs : Int := 0
  /-- The directory of the sources, relative to the root of the project. -/
  sources : Bytes := "."
  deriving DecidableEq, Repr, Inhabited

structure Manifest where
  path : Bytes
  name : Bytes
  build : BuildSettings
  deriving DecidableEq, Repr, Inhabited

namespace Manifest

def root (m : Manifest) : Bytes := Path.dir m.path

def sourceDir (m : Manifest) : Bytes := Path.join [m.root, m.build.sources]

/-- Whether a package may have a name: letters, digits, underscores and hyphens of ASCII, of which the
first is a letter or an underscore. -/
def isPackageName (name : Bytes) : Bool :=
  let isLetter (b : UInt8) : Bool := b == 0x5F || (0x41 ≤ b && b ≤ 0x5A) || (0x61 ≤ b && b ≤ 0x7A)
  match name with
  | [] => false
  | b :: rest => isLetter b && rest.all fun c => isLetter c || isDecimalDigit c || c == 0x2D

end Manifest

inductive ManifestError where
  | unreadable (e : FileError)
  | malformed (e : Toml.Error)
  /-- A value of the wrong type, with the line that gives it, if one does. -/
  | mistyped (line : Option Nat) (key : Toml.Key) (problem : Bytes)
  | noPackage
  | noName
  | badName (name : Bytes)
  | unknownKey (key : Toml.Key)
  | badEmit (name : Bytes)
  | negativeLimit
  | negativeJobs
  | absoluteSources (dir : Bytes)
  deriving Inhabited

namespace ManifestError

/-- Whether the file is no TOML, or has values of other types than those asked for. -/
def isToml : ManifestError → Bool
  | unreadable _ | malformed _ | mistyped .. => true
  | _ => false

/-- What is wrong with the manifest at a path. -/
def message (path : Bytes) (e : ManifestError) : Bytes :=
  let broken : Bytes := "failed to parse TOML: "
  let text : Bytes := match e with
    | unreadable e => broken ++ e.message
    | malformed e => broken ++ e.render
    | mistyped line key problem =>
      broken ++ ({ line, lastKey := Toml.keyText key, message := problem } : Toml.Error).render
    | noPackage => "missing [package]"
    | noName => "missing [package].name"
    | badName name => "invalid [package].name " ++ Text.quote name
    | unknownKey key => "unknown key " ++ Toml.keyText key
    | badEmit name => "[build].emit must be \"none\", \"ir\" or \"msgpack\", got " ++ Text.quote name
    | negativeLimit => "[build].max_diagnostics must not be negative"
    | negativeJobs => "[build].jobs must not be negative"
    | absoluteSources dir => "invalid [build].sources " ++ Text.quote dir ++ ": must be relative"
  path ++ Bytes.ofString ": " ++ text

end ManifestError

namespace Manifest

/-- How a type of value is called in a message. -/
def typeName : Toml.Value → Bytes
  | .text _ => "string"
  | .integer _ => "int64"
  | .float => "float64"
  | .bool _ => "bool"
  | .moment => "time.Time"
  | .array => "[]interface \x7b\x7d"
  | .table _ => "map[string]interface \x7b\x7d"
  | .tables _ => "[]map[string]interface \x7b\x7d"

def wrongType (v : Toml.Value) (wanted : Bytes) : Bytes :=
  "incompatible types: TOML value has type " ++ typeName v ++ "; destination has type " ++ wanted

def asText : Toml.Value → Except Bytes Bytes
  | .text s => .ok s
  | v => .error (wrongType v "string")

def asInteger : Toml.Value → Except Bytes Int
  | .integer n => .ok n
  | v => .error (wrongType v "integer")

def asTruth : Toml.Value → Except Bytes Bool
  | .bool b => .ok b
  | v => .error (wrongType v "boolean")

/-- What a manifest says, as far as it has a meaning. -/
structure Contents where
  name : Bytes := []
  build : BuildSettings := {}
  deriving Inhabited

/-- The keys of a table that have a meaning, each with what its value does. -/
abbrev Fields := List (Bytes × (Contents → Toml.Value → Except Bytes Contents))

def packageFields : Fields :=
  [("name", fun c v => do return { c with name := ← asText v })]

def buildFields : Fields :=
  [("max_diagnostics", fun c v => do return { c with build.maxDiagnostics := ← asInteger v }),
   ("strict", fun c v => do return { c with build.strict := ← asTruth v }),
   ("emit", fun c v => do return { c with build.emit := ← asText v }),
   ("cache", fun c v => do return { c with build.cache := ← asTruth v }),
   ("jobs", fun c v => do return { c with build.jobs := ← asInteger v }),
   ("sources", fun c v => do return { c with build.sources := ← asText v })]

/-- What a name means among some: the one of exactly this name, else one that differs by case. -/
def meaning? {α : Type} (fields : List (Bytes × α)) (name : Bytes) : Option α :=
  match fields.lookup name with
  | some a => some a
  | none => (fields.find? fun f => Text.sameFolded f.1 name).map (·.2)

/-- The tables of a manifest, with a name for messages. -/
def sections : List (Bytes × Bytes × Fields) :=
  [("package", "project.PackageConfig", packageFields), ("build", "project.BuildConfig", buildFields)]

def readFields (d : Toml.Document) (title : Bytes) (fields : Fields) (c : Contents) :
    Toml.Table → Except ManifestError Contents
  | [] => .ok c
  | (name, v) :: rest =>
    match meaning? fields name with
    | none => readFields d title fields c rest
    | some set =>
      match set c v with
      | .ok c => readFields d title fields c rest
      | .error problem => .error (.mistyped (d.lineOf? [title, name]) [title, name] problem)

def readSections (d : Toml.Document) (c : Contents) : Toml.Table → Except ManifestError Contents
  | [] => .ok c
  | (title, v) :: rest =>
    match meaning? sections title with
    | none => readSections d c rest
    | some (label, fields) =>
      match v with
      | .table t => do readSections d (← readFields d title fields c t) rest
      | v =>
        .error (.mistyped (d.lineOf? [title]) [title]
          ("type mismatch for " ++ label ++ ": expected table but found " ++ typeName v))

/-- Whether a key has a meaning and leads to a value; one whose value was replaced does not. -/
def isKnown (root : Toml.Table) : Toml.Key → Bool
  | [title] => (meaning? sections title).isSome
  | [title, name] =>
    match meaning? sections title with
    | some (_, fields) => (meaning? fields name).isSome && (root.find? [title, name]).isSome
    | none => false
  | _ => false

def ofText (path text : Bytes) : Except ManifestError Manifest := do
  let d ← (Toml.Document.read text).mapError .malformed
  let c ← readSections d {} d.root
  if (d.root.find? ["package"]).isNone then throw .noPackage
  let name := Utf8.trim c.name
  if (d.root.find? ["package", "name"]).isNone ∨ name = [] then throw .noName
  if !isPackageName name then throw (.badName name)
  if let some k := d.keys.find? fun k => !isKnown d.root k then throw (.unknownKey k)
  if (EmitFormat.ofName? c.build.emit).isNone then throw (.badEmit c.build.emit)
  if c.build.maxDiagnostics < 0 then throw .negativeLimit
  if c.build.jobs < 0 then throw .negativeJobs
  if Path.isAbsolute c.build.sources then throw (.absoluteSources c.build.sources)
  return { path, name, build := c.build }

end Manifest

def FileTree.loadManifest (t : FileTree) (path : Bytes) : Except ManifestError Manifest := do
  Manifest.ofText path (← (t.read path).mapError .unreadable)

end LetStack
