import LetStack.CommandLine.Basic

/-!
The compiler as a program. All files that a command line can reach are read before it is run, and what
it changed is written afterwards: the files below the working directory, those that its words name, and
the projects that both belong to.
-/

namespace LetStack.CommandLine

/-- What stands at a place on disk and below it, hidden directories left out. -/
partial def entriesAt (place : IO.FS.DirEntry) : IO (List (List Bytes × FileEntry)) := do
  let names := Path.elements (Bytes.ofString place.path.toString)
  if ← place.path.isDir then
    let mut below := [(names, FileEntry.directory)]
    for e in ← place.path.readDir do
      if !e.fileName.startsWith "." then below := below ++ (← entriesAt e)
    return below
  else if ← place.path.pathExists then
    return [(names, .file (← IO.FS.readBinFile place.path).data.toList)]
  else return []

def placeOnDisk (path : Bytes) : Option IO.FS.DirEntry :=
  (String.fromUTF8? ⟨path.toArray⟩).map fun s => { root := "/", fileName := (s.dropWhile (· = '/')).toString }

/-- The paths of the directories above a path, the path itself first. -/
def waysUp (path : Bytes) : List Bytes :=
  let names := Path.elements path
  ((List.range (names.length + 1)).map fun n => Path.ofElements true (names.take n)).reverse

/-- Reads what a path leads to, and the project that it belongs to. -/
def addPath (t : FileTree) (path : Bytes) : IO FileTree := do
  let put (t : FileTree) (es : List (List Bytes × FileEntry)) : FileTree :=
    { t with entries := t.entries ++ es.filter fun e => (t.entry? e.1).isNone }
  let mut t := t
  for dir in (waysUp path).drop 1 do
    if let some place := placeOnDisk dir then
      if ← place.path.isDir then t := put t [(Path.elements dir, .directory)]
    if let some manifest := placeOnDisk (Path.join [dir, manifestName]) then
      if ← manifest.path.pathExists then
        if let some place := placeOnDisk dir then t := put t (← entriesAt place)
  if let some place := placeOnDisk path then t := put t (← entriesAt place)
  return t

/-- The files that a command line can reach. -/
def filesOnDisk (workDir cacheHome : Bytes) (args : List Bytes) : IO FileTree := do
  let values := args.map fun a => if a.contains 0x3D then (a.dropWhile (· ≠ 0x3D)).drop 1 else a
  let paths := (values.filter (· ≠ [])).map (Path.absolute workDir)
  (workDir :: Path.join [cacheHome, toolName] :: paths).foldlM addPath { workDir }

def writeChanges (old new : FileTree) : IO Unit := do
  for (names, e) in new.entries do
    if old.entry? names ≠ some e then
      if let some place := placeOnDisk (Path.ofElements true names) then
        match e with
        | .directory => IO.FS.createDirAll place.path
        | .file content => IO.FS.writeBinFile place.path ⟨content.toArray⟩
        | .link _ | .void => pure ()
  for (names, e) in old.entries do
    if (new.entry? names).isNone ∧ e ≠ .directory then
      if let some place := placeOnDisk (Path.ofElements true names) then IO.FS.removeFile place.path

def runOnDisk (args : List String) : IO UInt32 := do
  let workDir := Bytes.ofString (← IO.currentDir).toString
  let home := ((← IO.getEnv "HOME").map Bytes.ofString).getD []
  let cacheHome := match ((← IO.getEnv "XDG_CACHE_HOME").map Bytes.ofString).getD [] with
    | [] => Path.join [home, ".cache"]
    | dir => dir
  let words := args.map Bytes.ofString
  let start ← filesOnDisk workDir cacheHome words
  let env : Environment :=
    { cacheHome, outputIsTerminal := ← (← IO.getStdout).isTty, errorsAreTerminal := ← (← IO.getStderr).isTty }
  let o := run env start words
  writeChanges start o.tree
  (← IO.getStdout).write ⟨o.output.toArray⟩
  (← IO.getStderr).write ⟨o.errors.toArray⟩
  return UInt32.ofNat o.exitCode

end LetStack.CommandLine

def main (args : List String) : IO UInt32 := LetStack.CommandLine.runOnDisk args
