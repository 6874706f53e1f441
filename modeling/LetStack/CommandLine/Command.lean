import LetStack.CommandLine.Flag
import LetStack.Text.Fold

/-!
The commands of the compiler, each with its flags, and what is said when a name is no command.
-/

namespace LetStack.CommandLine

inductive Command where
  | tokenize
  | parse
  | build
  | version
  | help
  | completion
  deriving DecidableEq, Repr, Inhabited

def toolName : Bytes := "ranoc"

def globalFlags : List Flag :=
  [{ name := "color", kind := .text, usage := "colorize output (auto|on|off)", default := "auto" },
   { name := "quiet", kind := .switch, usage := "suppress non-essential output" },
   { name := "timings", kind := .switch, usage := "show timing information" },
   { name := "max-diagnostics", kind := .number, usage := "maximum number of diagnostics to show", default := "100" },
   { name := "trace", kind := .text, usage := "trace output file (- for stderr)" },
   { name := "trace-level", kind := .text, usage := "trace level (off|phase|detail|debug)", default := "off" },
   { name := "trace-format", kind := .text, usage := "trace format (auto|text|ndjson)", default := "auto" },
   { name := "cpu-profile", kind := .text, usage := "write a CPU profile to file" },
   { name := "mem-profile", kind := .text, usage := "write a heap profile to file" },
   { name := "runtime-trace", kind := .text, usage := "write a Go runtime trace to file" }]

def helpFlag (name : Bytes) : Flag :=
  { name := "help", kind := .switch, usage := "help for " ++ name, letter := some 'h' }

def versionFlag : Flag :=
  { name := "version", kind := .switch, usage := "version for " ++ toolName, letter := some 'v' }

namespace Command

/-- The commands in the order in which they are looked up. -/
def all : List Command := [tokenize, parse, build, version, help, completion]

def name : Command → Bytes
  | tokenize => "tokenize"
  | parse => "parse"
  | build => "build"
  | version => "version"
  | help => "help"
  | completion => "completion"

def ofName? (n : Bytes) : Option Command := all.find? (·.name == n)

def summary : Command → Bytes
  | tokenize => "Tokenize a rano source file"
  | parse => "Parse a rano source file and output its AST"
  | build => "Compile rano sources to IR"
  | version => "Show ranoc build information"
  | help => "Help about any command"
  | completion => "Generate the autocompletion script for the specified shell"

def description : Command → Bytes
  | tokenize => "Tokenize breaks down a rano source file into its constituent tokens"
  | build =>
    "Build compiles a file or every .rano file of a directory. Without an\nargument the sources of the enclosing rano.toml project are built."
  | help =>
    "Help provides help for any command in the application.\nSimply type ranoc help [path to command] for full details."
  | c => c.summary

def usageLine : Command → Bytes
  | tokenize => "ranoc tokenize [flags] file.rano"
  | parse => "ranoc parse [flags] file.rano"
  | build => "ranoc build [flags] [file.rano|directory]"
  | version => "ranoc version [flags]"
  | help => "ranoc help [command] [flags]"
  | completion => "ranoc completion [flags]"

def ownFlags : Command → List Flag
  | tokenize | parse =>
    [{ name := "format", kind := .text, usage := "output format (pretty|json)", default := "pretty" }]
  | build =>
    [{ name := "ui", kind := .text, usage := "progress UI (auto|on|off)", default := "auto" },
     { name := "strict", kind := .switch, usage := "stop codegen at the first unimplemented feature" },
     { name := "emit", kind := .text, usage := "artifact format (none|ir|msgpack)", default := "none" },
     { name := "cache", kind := .switch, usage := "reuse results from the on-disk cache" },
     { name := "clean-cache", kind := .switch, usage := "drop the on-disk cache before building" },
     { name := "jobs", kind := .number, usage := "max parallel workers (0=auto)", default := "0" },
     { name := "out", kind := .text, usage := "artifact directory (default <project>/build)" },
     { name := "format", kind := .text, usage := "diagnostics format (pretty|json)", default := "pretty" }]
  | version =>
    [{ name := "format", kind := .text, usage := "output format (pretty|json)", default := "pretty" },
     { name := "hash", kind := .switch, usage := "include git commit hash" },
     { name := "date", kind := .switch, usage := "include build timestamp" },
     { name := "full", kind := .switch, usage := "show every recorded bit of build metadata" }]
  | help | completion => []

def localFlags (c : Command) : List Flag := c.ownFlags ++ [helpFlag c.name]
def flags (c : Command) : List Flag := c.localFlags ++ globalFlags

end Command

/-! ## Names that are no command -/

/-- One row of the table of edit distances: from the row for a text to the row for the text with one
byte more. -/
def distanceRow (b : UInt8) (other : Bytes) (row : List Nat) : List Nat :=
  let step (acc : List Nat) (x : UInt8 × Nat × Nat) : List Nat :=
    let (c, diagonal, above) := x
    let left := acc.headD 0
    (if b = c then diagonal else 1 + min diagonal (min above left)) :: acc
  ((other.zip (row.zip (row.drop 1))).foldl step [row.headD 0 + 1]).reverse

/-- How many bytes have to be put in, taken out or changed to make one text from another. -/
def editDistance (x y : Bytes) : Nat :=
  (x.foldl (fun row b => distanceRow b y row) (List.range (y.length + 1))).getLastD 0

/-- The commands whose name is close to a word or starts with it, regardless of case. -/
def suggestions (word : Bytes) : List Bytes :=
  let word := Text.small word
  ((Command.all.filter (· ≠ .help)).map Command.name).filter fun name =>
    editDistance word name ≤ 2 || name.startsWith word

/-- Where a command line leads: to a command with the words that remain, or to no command. -/
inductive Route where
  | root (args : List Bytes)
  | command (c : Command) (args : List Bytes)
  | unknown (word : Bytes)
  deriving Repr, Inhabited

/-- The first plain word names the command. -/
def route (args : List Bytes) : Route :=
  match plainWords globalFlags args with
  | [] => .root args
  | word :: _ =>
    match Command.ofName? word with
    | some c => .command c (withoutWord globalFlags word args)
    | none => .unknown word

end LetStack.CommandLine
