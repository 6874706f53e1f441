import LetStack.Manifest.Basic

/-!
Finding the manifest that a directory belongs to: the nearest one in the directory itself or above.
-/

namespace LetStack

def manifestName : Bytes := "rano.toml"

/-- A place where a manifest could be, but nobody can tell. -/
structure SearchError where
  path : Bytes
  cause : FileError
  deriving Repr, Inhabited

def SearchError.message (e : SearchError) : Bytes :=
  "failed to stat " ++ Text.quote e.path ++ ": " ++ e.cause.message

namespace FileTree

/-- Looks for a manifest in a directory and above it; `n` bounds the directories. -/
def findManifestFrom (t : FileTree) : Nat → Bytes → Except SearchError (Option Bytes)
  | 0, _ => .ok none
  | n + 1, dir =>
    let path := Path.join [dir, manifestName]
    match t.stat path with
    | .ok _ => .ok (some path)
    | .error e =>
      if e.cause ≠ .noEntry then .error ⟨path, e⟩
      else if Path.dir dir = dir then .ok none
      else findManifestFrom t n (Path.dir dir)

/-- The path of the manifest that a directory belongs to. -/
def findManifest (t : FileTree) (start : Bytes) : Except SearchError (Option Bytes) :=
  let dir := Path.absolute t.workDir start
  t.findManifestFrom (dir.length + 1) dir

end FileTree

end LetStack
