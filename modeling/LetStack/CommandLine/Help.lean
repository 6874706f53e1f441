import LetStack.CommandLine.Command

/-!
Help texts: what a command does, how it is called, and its flags in alphabetical order.
-/

namespace LetStack.CommandLine

namespace Flag

/-- The flag as it stands in a list, without what it is for. -/
def heading (f : Flag) : Bytes :=
  let name : Bytes := match f.letter with
    | some c => "  -" ++ Utf8.encode c ++ ", --" ++ f.name
    | none => "      --" ++ f.name
  match f.kind with
  | .text => name ++ Bytes.ofString " string"
  | .number => name ++ Bytes.ofString " int"
  | .switch => name

/-- What the flag is for, with its value if it is not given, unless that says nothing. -/
def explanation (f : Flag) : Bytes :=
  match f.kind with
  | .text => if f.default = [] then f.usage else f.usage ++ (" (default " ++ Text.quote f.default ++ ")" : Bytes)
  | .number => if f.default = [0x30] then f.usage else f.usage ++ (" (default " ++ f.default ++ ")" : Bytes)
  | .switch => f.usage

end Flag

def flagList (flags : List Flag) : Bytes :=
  let sorted := flags.mergeSort fun f g => !Bytes.before g.name f.name
  let widest := (sorted.map fun f => f.heading.length).foldl max 0
  sorted.flatMap fun f => Utf8.padRight (widest + 3) f.heading ++ f.explanation ++ Bytes.ofString "\n"

def commandList : Bytes :=
  let sorted := Command.all.mergeSort fun c d => !Bytes.before d.name c.name
  sorted.flatMap fun c => "  " ++ Utf8.padRight 12 c.name ++ c.summary ++ "\n"

def rootUsage (flags : List Flag) : Bytes :=
  "Usage:\n  ranoc [command]\n\nAvailable Commands:\n" ++ commandList ++ "\nFlags:\n" ++ flagList flags ++
    "\nUse \"ranoc [command] --help\" for more information about a command.\n"

def rootFlags : List Flag := globalFlags ++ [helpFlag toolName, versionFlag]

def rootHelp : Bytes :=
  "ranoc scans, parses and lowers .rano sources, reporting diagnostics along the way\n\n" ++ rootUsage rootFlags

def Command.helpText (c : Command) : Bytes :=
  c.description ++ ("\n\nUsage:\n  " ++ c.usageLine ++ "\n\nFlags:\n" ++ flagList c.localFlags ++
    "\nGlobal Flags:\n" ++ flagList globalFlags : Bytes)

/-- A word as it is shown when there is no help on it. -/
def topic (word : Bytes) : Bytes :=
  let isPlain (p : Utf8.Piece) : Bool :=
    if p.bytes.length = 1 then p.shown = '\t' || (0x20 ≤ p.shown.toNat && p.shown.toNat < 0x7F && p.shown.toNat != 0x60)
    else p.shown.toNat != 0xFEFF
  if (Utf8.pieces word).all isPlain then "`" ++ word ++ "`" else Text.quote word

/-- What is said when there is no help on some words. -/
def unknownTopic (words : List Bytes) : Bytes :=
  "Unknown help topic [" ++ Bytes.join " " (words.map topic) ++ "]\n" ++ rootUsage globalFlags

end LetStack.CommandLine
