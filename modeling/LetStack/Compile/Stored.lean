import LetStack.Compile.Cache
import LetStack.Files.Sources

/-!
Compiling files of a tree, with a cache that lives in the tree if there is one. A cache that cannot be
read or written costs time and changes no outcome.
-/

namespace LetStack

def entryPath (cacheDir : Bytes) (key : Digest) : Bytes :=
  Path.join [cacheDir, "units", Bytes.toHex key ++ ".mp"]

namespace FileTree

/-- Keeps an entry in a cache directory, as a file of its own even where a link was. -/
def putEntry (t : FileTree) (cacheDir : Bytes) (key : Digest) (e : CacheEntry) : Except FileError FileTree := do
  let path := entryPath cacheDir key
  let t ← t.makeDirectories (Path.dir path)
  t.replace path (.file e.pack)

/-- Compiles a file, asking the cache first if there is one. -/
def compileFile (t : FileTree) (opts : CompileOptions) (cacheDir? : Option Bytes) (f : SourceFile) :
    Compilation × FileTree :=
  match cacheDir? with
  | none => (.fresh opts f, t)
  | some dir =>
    let key := cacheKey f.hash opts
    match Compilation.consulting opts f (.ofStored (t.read (entryPath dir key)).toOption) with
    | (c, none) => (c, t)
    | (c, some e) =>
      match t.putEntry dir key e with
      | .ok t => (c, t)
      | .error _ => (c, t)

def compile (t : FileTree) (opts : CompileOptions) (cacheDir? : Option Bytes) (path : Bytes) :
    Except FileError (FileSet × Compilation × FileTree) := do
  let (id, fs) := ({} : FileSet).addLoaded path (← t.read path)
  match fs.get? id with
  | some f => return (fs, t.compileFile opts cacheDir? f)
  | none => return (fs, .unreadable opts path [], t)

/-- A file that was read, or why it could not be. -/
inductive Loaded where
  | file (f : SourceFile)
  | failed (path reason : Bytes)
  deriving Inhabited

def load (t : FileTree) (fs : FileSet) : List Bytes → FileSet × List Loaded
  | [] => (fs, [])
  | path :: rest =>
    match t.read path with
    | .ok content =>
      let (id, fs) := fs.addLoaded path content
      let loaded := match fs.get? id with
        | some f => Loaded.file f
        | none => .failed path []
      let (fs, others) := t.load fs rest
      (fs, loaded :: others)
    | .error e =>
      let (fs, others) := t.load fs rest
      (fs, .failed (Path.clean path) e.message :: others)

def compileAll (t : FileTree) (opts : CompileOptions) (cacheDir? : Option Bytes) :
    List Loaded → List Compilation × FileTree
  | [] => ([], t)
  | .failed path reason :: rest =>
    let (cs, t) := t.compileAll opts cacheDir? rest
    (.unreadable opts path reason :: cs, t)
  | .file f :: rest =>
    let (c, t) := t.compileFile opts cacheDir? f
    let (cs, t) := t.compileAll opts cacheDir? rest
    (c :: cs, t)

end FileTree

/-- The outcome of compiling several files that share a file set. -/
structure DirectoryCompilation where
  fileSet : FileSet
  files : List Compilation

def FileTree.compileDirectory (t : FileTree) (opts : CompileOptions) (cacheDir? : Option Bytes) (dir : Bytes)
    (sources : List Bytes) : DirectoryCompilation × FileTree :=
  let (fileSet, loaded) := t.load { base := dir } sources
  let (files, t) := t.compileAll opts cacheDir? loaded
  ({ fileSet, files }, t)

end LetStack
