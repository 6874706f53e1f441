import LetStack.Files.Tree

/-!
The source files of a directory: everything below it that is no directory and has the extension of a
source, except what lies in a directory whose name starts with a dot.
-/

namespace LetStack

def sourceExtension : Bytes := ".rano"

def isHidden (name : Bytes) : Bool := name.head? == some 0x2E

/-- The path of a source with its names below a directory, if it is one that is listed. -/
def sourcePath? (dir : Bytes) (names : List Bytes) (e : FileEntry) : Option Bytes :=
  let path := Path.join (dir :: names)
  if e ≠ .directory ∧ names ≠ [] ∧ !names.dropLast.any isHidden ∧ path.endsWith sourceExtension then some path
  else none

/-- The sources of a directory, in order. The directory itself may be named by anything that is no
directory; it is then listed itself if it has the extension. -/
def FileTree.sources (t : FileTree) (dir : Bytes) : Except FileError (List Bytes) := do
  match ← t.lookup "lstat" false dir with
  | (root, .directory) =>
    return Bytes.sort (t.entries.filterMap fun (p, e) =>
      if root.isPrefixOf p then sourcePath? dir (p.drop root.length) e else none)
  | _ => return if dir.endsWith sourceExtension then [dir] else []

end LetStack
