import LetStack.Text.Path

/-!
A tree of files as a value: regular files, directories and symbolic links, each at the list of names
that leads to it from the root. Looking something up follows links; changes yield a new tree.
-/

namespace LetStack

inductive FileEntry where
  | file (content : Bytes)
  | directory
  | link (target : Bytes)
  /-- A file that stays empty, whatever is written to it. -/
  | void
  deriving DecidableEq, Repr, Inhabited

inductive FileCause where
  | noEntry
  | notDirectory
  | isDirectory
  | alreadyThere
  | nameTooLong
  | invalidName
  | tooManyLinks
  deriving DecidableEq, Repr, Inhabited

def FileCause.message : FileCause → String
  | noEntry => "no such file or directory"
  | notDirectory => "not a directory"
  | isDirectory => "is a directory"
  | alreadyThere => "file exists"
  | nameTooLong => "file name too long"
  | invalidName => "invalid argument"
  | tooManyLinks => "too many levels of symbolic links"

structure FileError where
  operation : String
  path : Bytes
  cause : FileCause
  deriving DecidableEq, Repr, Inhabited

def FileError.message (e : FileError) : Bytes := e.operation ++ " " ++ e.path ++ ": " ++ e.cause.message

/-- What there is in every tree: a place for output that nobody wants. -/
def deviceEntries : List (List Bytes × FileEntry) :=
  [([Bytes.ofString "dev"], .directory), ([Bytes.ofString "dev", Bytes.ofString "null"], .void)]

structure FileTree where
  /-- Everything but the root, which is a directory. -/
  entries : List (List Bytes × FileEntry) := deviceEntries
  /-- The directory that relative paths start from. -/
  workDir : Bytes := "/"
  deriving Repr, Inhabited

namespace FileTree

/-- What stands at a list of names. -/
def entry? (t : FileTree) (names : List Bytes) : Option FileEntry :=
  if names = [] then some .directory else t.entries.lookup names

/-- Puts an entry at a list of names, in place of what was there. -/
def insert (t : FileTree) (names : List Bytes) (e : FileEntry) : FileTree :=
  { t with entries := t.entries.filter (·.1 != names) ++ [(names, e)] }

/-- Removes everything below a list of names. -/
def clear (t : FileTree) (names : List Bytes) : FileTree :=
  { t with entries := t.entries.filter fun (p, _) => !(names.isPrefixOf p && names.length < p.length) }

/-- What a path leads to: an entry, or a place for one in a directory. -/
inductive Place where
  | found (names : List Bytes) (e : FileEntry)
  /-- Only a directory fits where a slash stands behind the last name. -/
  | free (names : List Bytes) (slashed : Bool)
  deriving Repr, Inhabited

/-- How many links are followed on one way. -/
def maxLinks : Nat := 40

/-- Follows names from a directory. A link is replaced by its target; the last name of a path is
followed only if `follow` says so. -/
def walk (t : FileTree) (follow : Bool) (links : Nat) (here rest : List Bytes) : Except FileCause Place :=
  match rest with
  | [] => .ok (.found here .directory)
  | name :: rest =>
    if name = [] ∨ name = "." then walk t follow links here rest
    else if name = ".." then walk t follow links here.dropLast rest
    else if 255 < name.length then .error .nameTooLong
    else
      let next := here ++ [name]
      match t.entry? next with
      | none => if rest.all (· = []) then .ok (.free next (rest ≠ [])) else .error .noEntry
      | some .directory => walk t follow links next rest
      | some (.link target) =>
        if rest = [] ∧ !follow then .ok (.found next (.link target))
        else
          match links with
          | 0 => .error .tooManyLinks
          | links + 1 =>
            walk t follow links (if Path.isAbsolute target then [] else here)
              (Bytes.splitOn Path.slash target ++ rest)
      | some e => if rest = [] then .ok (.found next e) else .error .notDirectory
termination_by (links, rest.length)

/-- What a path leads to. -/
def place (t : FileTree) (follow : Bool) (path : Bytes) : Except FileCause Place :=
  if path = [] then .error .noEntry
  else if path.contains 0 then .error .invalidName
  else if 4096 ≤ path.length then .error .nameTooLong
  else
    let start := if Path.isAbsolute path then [] else Path.elements t.workDir
    walk t follow maxLinks start (Bytes.splitOn Path.slash path)

/-- The entry at a path, as reported by an operation. -/
def lookup (t : FileTree) (operation : String) (follow : Bool) (path : Bytes) :
    Except FileError (List Bytes × FileEntry) :=
  match t.place follow path with
  | .ok (.found names e) => .ok (names, e)
  | .ok (.free ..) => .error ⟨operation, path, .noEntry⟩
  | .error cause => .error ⟨operation, path, cause⟩

/-- The entry at a path, links followed. -/
def stat (t : FileTree) (path : Bytes) : Except FileError FileEntry := (t.lookup "stat" true path).map (·.2)

def isDirectory (t : FileTree) (path : Bytes) : Bool := (t.stat path).toOption == some .directory

def read (t : FileTree) (path : Bytes) : Except FileError Bytes :=
  match t.lookup "open" true path with
  | .ok (_, .file content) => .ok content
  | .ok (_, .void) => .ok []
  | .ok _ => .error ⟨"read", path, .isDirectory⟩
  | .error e => .error e

/-- Opens a file for output, an empty one now. It is known by its place from then on, wherever its path
may lead later. -/
def create (t : FileTree) (path : Bytes) : Except FileError (List Bytes × FileTree) :=
  match t.place true path with
  | .ok (.found names (.file _)) | .ok (.free names false) => .ok (names, t.insert names (.file []))
  | .ok (.found names .void) => .ok (names, t)
  | .ok _ => .error ⟨"open", path, .isDirectory⟩
  | .error cause => .error ⟨"open", path, cause⟩

/-- Gives a file that was opened its content. What is written to a file that is gone is lost. -/
def fill (t : FileTree) (names : List Bytes) (content : Bytes) : FileTree :=
  match t.entry? names with
  | some (.file _) => t.insert names (.file content)
  | _ => t

/-- Writes a file, a new one if there is none. -/
def write (t : FileTree) (path content : Bytes) : Except FileError FileTree :=
  (t.create path).map fun (names, t) => t.fill names content

/-- Puts an entry where a path ends, in place of a file or a link that is there. -/
def replace (t : FileTree) (path : Bytes) (e : FileEntry) : Except FileError FileTree :=
  match t.place false path with
  | .ok (.found _ .directory) => .error ⟨"rename", path, .alreadyThere⟩
  | .ok (.found names _) | .ok (.free names _) => .ok (t.insert names e)
  | .error cause => .error ⟨"rename", path, cause⟩

/-- A path without slashes at its end. -/
def withoutSlashes (path : Bytes) : Bytes := (path.reverse.dropWhile (· = Path.slash)).reverse

def makeDirectory (t : FileTree) (path : Bytes) : Except FileError FileTree :=
  match t.place false (withoutSlashes path) with
  | .ok (.free names _) => .ok (t.insert names .directory)
  | .ok (.found _ _) => .error ⟨"mkdir", path, .alreadyThere⟩
  | .error cause => .error ⟨"mkdir", path, cause⟩

/-- Everything up to and with the last slash before the last name of a path. -/
def parentPath (path : Bytes) : Bytes :=
  ((withoutSlashes path).reverse.dropWhile (· ≠ Path.slash)).reverse

/-- Makes a directory and those above it that are missing, at most `depth` levels. -/
def makeDirectoriesWithin (t : FileTree) : Nat → Bytes → Except FileError FileTree
  | 0, _ => .ok t
  | depth + 1, path =>
    match t.stat path with
    | .ok .directory => .ok t
    | .ok _ => .error ⟨"mkdir", path, .notDirectory⟩
    | .error _ => do
      let t ← if parentPath path = [] then pure t else makeDirectoriesWithin t depth (parentPath path)
      match t.makeDirectory path with
      | .ok t => .ok t
      | .error e =>
        if (t.lookup "lstat" false path).toOption.map (·.2) = some .directory then .ok t else .error e

/-- Makes a directory and those above it that are missing. -/
def makeDirectories (t : FileTree) (path : Bytes) : Except FileError FileTree :=
  t.makeDirectoriesWithin (path.length + 1) path

/-- A new directory in place of what is there. Of a link only the link goes. -/
def renewDirectory (t : FileTree) (path : Bytes) : FileTree :=
  match t.place false path with
  | .ok (.found names _) => (t.clear names).insert names .directory
  | _ => t

/-- Puts an entry at a path, with the directories above it. -/
def put (t : FileTree) (path : Bytes) (e : FileEntry) : Except FileError FileTree := do
  let t ← t.makeDirectories (Path.dir path)
  match e with
  | .file content => t.write path content
  | .directory => t.makeDirectories path
  | e => t.replace path e

/-- The tree as it is seen from a directory, whose path is taken without links. -/
def enter (t : FileTree) (dir : Bytes) : FileTree :=
  match t.place true dir with
  | .ok (.found names .directory) => { t with workDir := Path.ofElements true names }
  | _ => { t with workDir := Path.absolute t.workDir dir }

/-- The regular files below a directory, each with the names that lead to it from there. -/
def filesBelow (t : FileTree) (names : List Bytes) : List (List Bytes × Bytes) :=
  t.entries.filterMap fun (p, e) =>
    match e with
    | .file content => if names.isPrefixOf p then some (p.drop names.length, content) else none
    | _ => none

end FileTree

end LetStack
