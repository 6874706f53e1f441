import LetStack.Text.Bytes

/-!
File paths as text: elements separated by slashes. Everything here looks at the text alone, never at
the files it may name.
-/

namespace LetStack.Path

abbrev slash : UInt8 := 0x2F

def isAbsolute (p : Bytes) : Bool := p.head? == some slash

/-- One element behind the elements so far: `.` and nothing add nothing, `..` takes back the last
element, stays at the root, and is kept where there is nothing to take back. -/
def push (rooted : Bool) (elements : List Bytes) (e : Bytes) : List Bytes :=
  if e = [] ∨ e = "." then elements
  else if e = ".." then
    match elements.getLast? with
    | none => if rooted then [] else [e]
    | some last => if last = ".." then elements ++ [e] else elements.dropLast
  else elements ++ [e]

/-- The elements of a path after all `.` and `..` are worked out. -/
def elements (p : Bytes) : List Bytes := (Bytes.splitOn slash p).foldl (push (isAbsolute p)) []

/-- A path made of elements, `.` for the relative path of none. -/
def ofElements (rooted : Bool) (es : List Bytes) : Bytes :=
  if rooted then slash :: Bytes.join "/" es
  else if es = [] then "."
  else Bytes.join "/" es

/-- The shortest path of the same meaning. -/
def clean (p : Bytes) : Bytes := ofElements (isAbsolute p) (elements p)

/-- The paths one below the other, cleaned; leading empty ones do not count. -/
def join (ps : List Bytes) : Bytes :=
  match ps.dropWhile (· = []) with
  | [] => []
  | rest => clean (Bytes.join "/" rest)

/-- The path seen from the root, a relative one being taken from `dir`. -/
def absolute (dir p : Bytes) : Bytes := if isAbsolute p then clean p else join [dir, p]

/-- The last element; `.` for the empty path, `/` for the root. -/
def base (p : Bytes) : Bytes :=
  if p = [] then "."
  else
    let trimmed := (p.reverse.dropWhile (· = slash)).reverse
    if trimmed = [] then "/" else (trimmed.reverse.takeWhile (· ≠ slash)).reverse

/-- Everything before the last element, cleaned. -/
def dir (p : Bytes) : Bytes := clean (p.reverse.dropWhile (· ≠ slash)).reverse

/-- What is left of two lists behind their common start. -/
def withoutCommon : List Bytes → List Bytes → List Bytes × List Bytes
  | a :: as, b :: bs => if a = b then withoutCommon as bs else (a :: as, b :: bs)
  | as, bs => (as, bs)

/-- The way from one absolute path to another: up out of what only the first has, then down. -/
def relative (source target : Bytes) : Bytes :=
  let (up, down) := withoutCommon (elements source) (elements target)
  ofElements false (up.map (fun _ => Bytes.ofString "..") ++ down)

end LetStack.Path
