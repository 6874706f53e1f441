import LetStack.Build.Bar
import LetStack.Build.Board
import LetStack.Text.Cells

/-!
What a terminal shows while a build runs: a title with what is going on, a row for each file, a bar and
the number of files that are finished.
-/

namespace LetStack

namespace Stage

/-- What is done in a stage, for readers. -/
def activity : Stage → Bytes
  | load => "loading"
  | cache => "cache"
  | lex => "scanning"
  | parse => "parsing"
  | codegen => "lowering"
  | emit => "emitting"
  | other n => n

/-- The part of the work on a file that is done when a stage starts. -/
def weight : Stage → Float
  | load | cache => 0.1
  | lex => 0.2
  | parse => 0.4
  | codegen => 0.7
  | emit => 0.9
  | other _ => 0

end Stage

namespace Row

def label (r : Row) : Bytes :=
  match r.state with
  | .queued => "queued"
  | .working s => s.activity
  | .done => "done"
  | .failed => "error"

def progress (r : Row) : Float :=
  match r.state with
  | .queued => 0
  | .working s => s.weight
  | .done | .failed => 1

end Row

/-- The part of the work on all files that is done. -/
def Board.progress (b : Board) : Float :=
  if b.rows.isEmpty then 0 else (b.rows.map Row.progress).foldl (· + ·) 0 / b.rows.length.toFloat

structure Screen where
  title : Bytes
  board : Board
  bar : Bar := {}
  /-- What the whole build is doing. -/
  activity : Bytes := []
  columns : Nat := 80
  /-- How often the spinner has turned. -/
  turns : Nat := 0
  closed : Bool := false
  deriving Inhabited

namespace Screen

def ofNames (title : Bytes) (names : List Bytes) : Screen := { title, board := .ofNames names }

def apply (s : Screen) (e : ProgressEvent) : Screen :=
  if e.file = [] then (if e.status = .working then { s with activity := e.stage.activity } else s)
  else
    match s.board.after? e with
    | some board => { s with board, bar := s.bar.aim board.progress }
    | none => s

/-- Fits the screen to a number of columns; zero says nothing. -/
def resize (s : Screen) (columns : Nat) : Screen :=
  if columns = 0 then s else { s with columns, bar := { s.bar with columns := max (columns - 4) 10 } }

def tick (s : Screen) : Screen := if s.closed then s else { s with turns := s.turns + 1 }

def animate (s : Screen) (frames : Nat) : Screen := { s with bar := s.bar.frames frames }

def close (s : Screen) : Screen := { s with closed := true }

def isQuitKey (key : Bytes) : Bool := key == Bytes.ofString "q" || key == Bytes.ofString "ctrl+c"

def spinner : List Bytes := ["⠋", "⠙", "⠹", "⠸", "⠼", "⠴", "⠦", "⠧", "⠇", "⠏"]

def header (s : Screen) : Bytes :=
  if s.closed then "finished " ++ s.title
  else
    let frame := spinner.getD (s.turns % spinner.length) []
    let activity : Bytes := if s.activity = [] then [] else " · " ++ s.activity
    frame ++ Bytes.ofString " " ++ s.title ++ activity

def shorten (columns : Nat) (x : Bytes) : Bytes :=
  if columns = 0 then x else Text.truncate columns (if columns ≤ 3 then [] else "...") x

def rowLine (columns : Nat) (r : Row) : Bytes :=
  let label := Bytes.spaces (10 - Utf8.length r.label) ++ r.label
  let time : Bytes := if r.isDone ∧ 0 < r.elapsed then Text.block (" " ++ r.elapsed.toMicros.render) else []
  let reason : Bytes := if r.reason = [] then [] else Text.block (": " ++ shorten (max (columns / 2) 10) r.reason)
  "  " ++ Text.block label ++ " " ++ shorten columns r.name ++ time ++ reason ++ "\n"

/-- The whole screen; nothing for a build without files. -/
def view (s : Screen) (room : Nat) : Except Bar.Fault Bytes := do
  if s.board.rows.isEmpty then return []
  else
    let columns := max (s.columns - 16) 20
    let rows := s.board.rows.flatMap (rowLine columns)
    let bar ← s.bar.view room (if s.closed then 1 else s.bar.shown)
    let done := s.board.doneCount
    let failed := s.board.failedCount
    let failures : Bytes := if failed = 0 then [] else ", " ++ Bytes.ofNat failed ++ " failed"
    return Text.block s.header ++ Bytes.ofString "\n\n" ++ rows ++ Bytes.ofString "\n" ++ bar ++ Bytes.ofString "\n" ++
      Bytes.ofNat (done + failed) ++ Bytes.ofString "/" ++ Bytes.ofNat s.board.rows.length ++
      Bytes.ofString " files" ++ failures ++ Bytes.ofString "\n"

end Screen

end LetStack
