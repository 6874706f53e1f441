import LetStack.Decimal.Integer
import LetStack.Text.Quoted

/-!
Flags on a command line. A flag is `--name value` or `--name=value`; a switch needs no value. Flags may
stand anywhere, and `--` ends them.
-/

namespace LetStack.CommandLine

inductive FlagKind where
  | text
  | number
  | switch
  deriving DecidableEq, Repr, Inhabited

structure Flag where
  name : Bytes
  kind : FlagKind
  usage : Bytes
  /-- The value of a flag that is not given, as it is written. -/
  default : Bytes := []
  /-- A letter that stands for the name. -/
  letter : Option Char := none
  deriving DecidableEq, Repr, Inhabited

inductive FlagValue where
  | text (s : Bytes)
  | number (n : Int)
  | switch (b : Bool)
  deriving DecidableEq, Repr, Inhabited

inductive ValueProblem where
  | notTruth
  | notNumber
  | outOfRange
  deriving DecidableEq, Repr, Inhabited

def ValueProblem.message (value : Bytes) : ValueProblem → Bytes
  | notTruth => "strconv.ParseBool: parsing " ++ Text.quote value ++ ": invalid syntax"
  | notNumber => "strconv.ParseInt: parsing " ++ Text.quote value ++ ": invalid syntax"
  | outOfRange => "strconv.ParseInt: parsing " ++ Text.quote value ++ ": value out of range"

inductive FlagError where
  | badForm (word : Bytes)
  | unknown (name : Bytes)
  | unknownLetter (letter : Char) (letters : Bytes)
  | noValue (name : Bytes)
  | noLetterValue (letter : Char) (letters : Bytes)
  | badValue (flag : Flag) (value : Bytes) (problem : ValueProblem)
  deriving Repr, Inhabited

namespace FlagError

def message : FlagError → Bytes
  | badForm word => "bad flag syntax: " ++ word
  | unknown name => "unknown flag: --" ++ name
  | unknownLetter c letters => "unknown shorthand flag: " ++ Text.quoteChar c ++ " in -" ++ letters
  | noValue name => "flag needs an argument: --" ++ name
  | noLetterValue c letters => "flag needs an argument: " ++ Text.quoteChar c ++ " in -" ++ letters
  | badValue flag value problem =>
    let name : Bytes := match flag.letter with
      | some c => "-" ++ Utf8.encode c ++ ", --" ++ flag.name
      | none => "--" ++ flag.name
    "invalid argument " ++ Text.quote value ++ " for " ++ Text.quote name ++ " flag: " ++ problem.message value

end FlagError

/-- The truth value that a word stands for. -/
def truthOf? (word : Bytes) : Option Bool :=
  let yes : List Bytes := ["1", "t", "T", "TRUE", "true", "True"]
  let no : List Bytes := ["0", "f", "F", "FALSE", "false", "False"]
  if yes.contains word then some true else if no.contains word then some false else none

def Flag.read (f : Flag) (word : Bytes) : Except FlagError FlagValue :=
  match f.kind with
  | .text => .ok (.text word)
  | .switch =>
    match truthOf? word with
    | some b => .ok (.switch b)
    | none => .error (.badValue f word .notTruth)
  | .number =>
    match Integer.ofText word with
    | .ok n => .ok (.number n.toInt)
    | .error .malformed => .error (.badValue f word .notNumber)
    | .error .outOfRange => .error (.badValue f word .outOfRange)

/-- What a command line says: the flags that are given, in order, and the other words. -/
structure Parsed where
  given : List (Bytes × FlagValue) := []
  words : List Bytes := []
  deriving Repr, Inhabited

namespace Parsed

def isGiven (p : Parsed) (name : Bytes) : Bool := p.given.any (·.1 == name)

/-- The value that was given last. -/
def value? (p : Parsed) (name : Bytes) : Option FlagValue := (p.given.reverse.find? (·.1 == name)).map (·.2)

def text (p : Parsed) (name : Bytes) (default : Bytes) : Bytes :=
  match p.value? name with
  | some (.text s) => s
  | _ => default

def number (p : Parsed) (name : Bytes) (default : Int) : Int :=
  match p.value? name with
  | some (.number n) => n
  | _ => default

def switch (p : Parsed) (name : Bytes) : Bool :=
  match p.value? name with
  | some (.switch b) => b
  | _ => false

def give (p : Parsed) (f : Flag) (word : Bytes) : Except FlagError Parsed := do
  return { p with given := p.given ++ [(f.name, ← f.read word)] }

end Parsed

def findFlag? (flags : List Flag) (name : Bytes) : Option Flag := flags.find? (·.name == name)
def findLetter? (flags : List Flag) (c : Char) : Option Flag := flags.find? (·.letter == some c)

/-- Takes `--name` or `--name=value` in; the words behind it may hold its value. -/
def takeLong (flags : List Flag) (p : Parsed) (word : Bytes) (rest : List Bytes) : Except FlagError (Parsed × List Bytes) := do
  let body := word.drop 2
  let name := body.takeWhile (· ≠ 0x3D)
  if name = [] ∨ name.head? = some 0x2D then throw (.badForm word)
  let some f := findFlag? flags name | throw (.unknown name)
  if body.contains 0x3D then return (← p.give f (body.drop (name.length + 1)), rest)
  if f.kind = .switch then return (← p.give f "true", rest)
  match rest with
  | value :: rest => return (← p.give f value, rest)
  | [] => throw (.noValue name)

/-- The character by which a report names a letter: of a byte outside ASCII, the byte that its own
encoding starts with. -/
def shownLetter (b : UInt8) : Char := Char.ofNat ((Utf8.encode (Char.ofNat b.toNat)).headD b).toNat

/-- Takes the letters of a word like `-hv` in, from behind the hyphen. Letters from `test.` on are left to
a test runner. -/
def takeLetters (flags : List Flag) (p : Parsed) (rest : List Bytes) : Bytes → Except FlagError (Parsed × List Bytes)
  | [] => .ok (p, rest)
  | b :: letters =>
    let c := Char.ofNat b.toNat
    if Bytes.startsWith (b :: letters) "test." then .ok (p, rest) else
    match findLetter? flags c with
    | none => .error (.unknownLetter (shownLetter b) (b :: letters))
    | some f =>
      match letters with
      | 0x3D :: v :: value => do return (← p.give f (v :: value), rest)
      | _ =>
        if f.kind = .switch then do takeLetters flags (← p.give f "true") rest letters
        else if letters ≠ [] then do return (← p.give f letters, rest)
        else
          match rest with
          | value :: rest => do return (← p.give f value, rest)
          | [] => .error (.noLetterValue c (b :: letters))

/-- Reads the words of a command line; `n` bounds their number. -/
def parseWords (flags : List Flag) : Nat → Parsed → List Bytes → Except FlagError Parsed
  | 0, p, _ => .ok p
  | _ + 1, p, [] => .ok p
  | n + 1, p, word :: rest => do
    if word = [0x2D, 0x2D] then return { p with words := p.words ++ rest }
    if word.startsWith "--" then
      let (p, rest) ← takeLong flags p word rest
      parseWords flags n p rest
    else if word.startsWith "-" ∧ word.length ≠ 1 then
      let (p, rest) ← takeLetters flags p rest (word.drop 1)
      parseWords flags n p rest
    else parseWords flags n { p with words := p.words ++ [word] } rest

def parse (flags : List Flag) (args : List Bytes) : Except FlagError Parsed := parseWords flags args.length {} args

/-- Whether a word is a flag that takes the next word as its value, as far as one can tell. -/
def takesNext (flags : List Flag) (word : Bytes) : Bool :=
  !word.contains 0x3D &&
    ((word.startsWith "--" && ((findFlag? flags (word.drop 2)).map (·.kind)) != some .switch) ||
      (word.startsWith "-" && word.length == 2 &&
        (((word.drop 1).head?.bind fun b => findLetter? flags (Char.ofNat b.toNat)).map (·.kind)) != some .switch))

/-- The words that are neither flags nor values of flags. -/
def plainWords (flags : List Flag) : List Bytes → List Bytes
  | [] => []
  | word :: rest =>
    if word = [0x2D, 0x2D] then []
    else if takesNext flags word then
      match rest with
      | _ :: next :: more => plainWords flags (next :: more)
      | _ => []
    else if word ≠ [] ∧ !word.startsWith "-" then word :: plainWords flags rest
    else plainWords flags rest

def withoutWord (flags : List Flag) (x : Bytes) : List Bytes → List Bytes
  | [] => []
  | word :: rest =>
    if word = [0x2D, 0x2D] then word :: rest
    else if takesNext flags word then
      match rest with
      | value :: more => word :: value :: withoutWord flags x more
      | [] => [word]
    else if word = x ∧ !word.startsWith "-" then rest
    else word :: withoutWord flags x rest

end LetStack.CommandLine
