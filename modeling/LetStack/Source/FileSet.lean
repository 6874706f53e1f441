import LetStack.Diagnostic.Basic
import LetStack.Digest.Sha256
import LetStack.Source.Lines
import LetStack.Text.Path

/-!
The files of a compilation, numbered in the order they are added. A path may be added again; it then
stands for the newest file.
-/

namespace LetStack

structure SourceFile where
  id : FileId
  path : Bytes
  content : Bytes
  lineFeeds : List Nat
  hash : Bytes
  flags : UInt8 := 0
  deriving DecidableEq, Repr, Inhabited

/-- The flag of a file that was not read from disk. -/
def SourceFile.virtual : UInt8 := 1

/-- The flag of a file whose byte order mark was taken off. -/
def SourceFile.hadMark : UInt8 := 2

/-- A text without the byte order mark at its start, and whether it had one. -/
def withoutMark : Bytes → Bytes × Bool
  | 0xEF :: 0xBB :: 0xBF :: rest => (rest, true)
  | x => (x, false)

structure FileSet where
  files : List SourceFile := []
  /-- The directory that relative paths are shown from; the working directory if empty. -/
  base : Bytes := []
  deriving Repr, Inhabited

namespace FileSet

def size (fs : FileSet) : Nat := fs.files.length

def baseDir (fs : FileSet) (workDir : Bytes) : Bytes := if fs.base = [] then workDir else fs.base

/-- Adds a file under its cleaned path. -/
def add (fs : FileSet) (path content : Bytes) (flags : UInt8) : FileId × FileSet :=
  let file : SourceFile :=
    { id := fs.size, path := Path.clean path, content, lineFeeds := lineFeeds content,
      hash := Sha256.hash content, flags }
  (fs.size, { fs with files := fs.files ++ [file] })

/-- Adds a text that is no file on disk. -/
def addVirtual (fs : FileSet) (name content : Bytes) : FileId × FileSet :=
  fs.add name content SourceFile.virtual

/-- Adds a file as it was read from disk. -/
def addLoaded (fs : FileSet) (path content : Bytes) : FileId × FileSet :=
  let (content, had) := withoutMark content
  fs.add path content (if had then SourceFile.hadMark else 0)

def get? (fs : FileSet) (id : FileId) : Option SourceFile := fs.files[id]?

/-- The newest file with a path. -/
def byPath? (fs : FileSet) (path : Bytes) : Option SourceFile :=
  fs.files.reverse.find? (·.path == Path.clean path)

/-- The two ends of a span; nowhere for an unknown file and for a span of nothing. -/
def resolve (fs : FileSet) (id : FileId) (span : Span) : Position × Position :=
  match fs.get? id with
  | none => ({}, {})
  | some f =>
    if span.isEmpty then ({}, {})
    else (positionOf f.lineFeeds span.start, positionOf f.lineFeeds span.stop)

end FileSet

inductive PathStyle where
  /-- As it is, unless it is long and absolute; then its last element. -/
  | auto
  | absolute
  | relative
  | basename
  | verbatim
  deriving DecidableEq, Repr, Inhabited

/-- The style that a word stands for; a word that stands for none leaves the path as it is. -/
def PathStyle.ofName (name : Bytes) : PathStyle :=
  (([("auto", auto), ("absolute", absolute), ("relative", relative), ("basename", basename)] :
    List (Bytes × PathStyle)).lookup name).getD verbatim

namespace SourceFile

def line (f : SourceFile) (n : UInt32) : Bytes := lineText f.content f.lineFeeds n

def shownPath (f : SourceFile) (style : PathStyle) (base workDir : Bytes) : Bytes :=
  match style with
  | .absolute => Path.absolute workDir f.path
  | .relative => Path.relative (Path.absolute workDir base) (Path.absolute workDir f.path)
  | .basename => Path.base f.path
  | .auto => if f.path.length < 40 ∨ ¬Path.isAbsolute f.path then f.path else Path.base f.path
  | .verbatim => f.path

end SourceFile

end LetStack
