import LetStack.Text.Colour
import LetStack.Text.Utf8

/-!
The version of the compiler: a release with what is known about how it was built.
-/

namespace LetStack

structure Version where
  release : Bytes := "0.1.0-dev"
  commit : Bytes := []
  date : Bytes := []
  deriving DecidableEq, Repr, Inhabited

namespace Version

/-- Without blanks around the texts; a release without a name is called `dev`. -/
def tidy (v : Version) : Version :=
  let release := Utf8.trim v.release
  { release := if release = [] then "dev" else release, commit := Utf8.trim v.commit, date := Utf8.trim v.date }

/-- The colours of the three numbers of a release. -/
def numberStyles : List Text.Style :=
  [{ colour := some .yellow, bold := true }, { colour := some .green, bold := true },
   { colour := some .blue, bold := true }]

/-- A release with its three numbers coloured. A text of any other form, or without colours, stays as it is. -/
def paint (release : Bytes) (coloured : Bool) : Bytes :=
  let core := release.takeWhile (· ≠ 0x2D)
  let label := release.drop (core.length + 1)
  let parts := Bytes.splitOn 0x2E core
  if !coloured ∨ parts.length ≠ 3 then release
  else
    let painted := Bytes.join "." ((numberStyles.zip parts).map fun (s, p) => s.paint true p)
    if label = [] then painted else painted ++ Bytes.ofString "-" ++ label

end Version

end LetStack
