import LetStack.Text.Utf8
import LetStack.Token.Kind

/-!
The token at the start of a text. Every class measures its longest match; the longest of all wins,
and of equal ones a fixed word comes before a literal and a literal before an identifier.
-/

namespace LetStack.Token

/-! ## What lies between tokens -/

/-- The characters that end a line. -/
def isLineBreak (c : Char) : Bool :=
  (0x0A ≤ c.toNat && c.toNat ≤ 0x0D) || c.toNat == 0x85 || c.toNat == 0x2028 || c.toNat == 0x2029

/-- The characters that separate tokens on one line. -/
def isBlank (c : Char) : Bool :=
  c.toNat == 0x09 || c.toNat == 0x20 || c.toNat == 0xAD || c.toNat == 0xA0 || c.toNat == 0x1680 ||
  (0x2000 ≤ c.toNat && c.toNat ≤ 0x200B) || c.toNat == 0x200E || c.toNat == 0x200F ||
  c.toNat == 0x202F || c.toNat == 0x205F || c.toNat == 0x3000 || c.toNat == 0xFEFF

/-- The length of the line break at the start of a text, 0 if there is none. A carriage return
followed by a line feed is one break. -/
def lineBreakLength (x : Bytes) : Nat :=
  match x with
  | 0x0D :: 0x0A :: _ => 2
  | _ =>
    match Utf8.decode? x with
    | some c => if isLineBreak c then c.utf8Size else 0
    | none => 0

/-- The length of the blank at the start of a text, 0 if there is none. -/
def blankLength (x : Bytes) : Nat :=
  match Utf8.decode? x with
  | some c => if isBlank c then c.utf8Size else 0
  | none => 0

/-! ## Identifiers -/

/-- A character inside an identifier: anything but punctuation, blanks and line breaks. -/
def isWordChar (c : Char) : Bool :=
  !(c.toNat < 0x80 && Kind.isMark (UInt8.ofNat c.toNat)) && !isBlank c && !isLineBreak c

/-- A character that starts an identifier: one inside it that is no ASCII digit. -/
def isWordStart (c : Char) : Bool :=
  !(0x30 ≤ c.toNat && c.toNat ≤ 0x39) && isWordChar c

/-- The length of the longest identifier at the start of a text, 0 if there is none. -/
def wordLength (x : Bytes) : Nat :=
  match Utf8.decode? x with
  | some c => if isWordStart c then Utf8.runLength isWordChar x else 0
  | none => 0

/-! ## Numbers -/

/-- How many bytes at the start of a text satisfy `p`. -/
def countWhile (p : UInt8 → Bool) (x : Bytes) : Nat := (x.takeWhile p).length

/-- The length of `0b`, `0o` or `0x` with the digits after it, 0 if there is no such number. -/
def prefixedLength : Bytes → Nat
  | 0x30 :: base :: digits =>
    let n :=
      if base = 0x62 then countWhile isBinaryDigit digits
      else if base = 0x6F then countWhile isOctalDigit digits
      else if base = 0x78 then countWhile isHexDigit digits
      else 0
    if n = 0 then 0 else n + 2
  | _ => 0

/-- The length of a fraction `.` digits, 0 if there is none. -/
def fractionLength : Bytes → Nat
  | 0x2E :: digits =>
    let n := countWhile isDecimalDigit digits
    if n = 0 then 0 else n + 1
  | _ => 0

/-- The length of an exponent: `e` or `E`, a sign, digits; 0 if there is none. -/
def exponentLength : Bytes → Nat
  | e :: sign :: digits =>
    if (e = 0x65 ∨ e = 0x45) ∧ (sign = 0x2B ∨ sign = 0x2D) then
      let n := countWhile isDecimalDigit digits
      if n = 0 then 0 else n + 2
    else 0
  | _ => 0

/-- The longest number at the start of a text that starts with a digit. -/
def matchNumber (x : Bytes) : Kind × Nat :=
  let digits := countWhile isDecimalDigit x
  let int := if digits = 1 then max digits (prefixedLength x) else digits
  let mantissa := digits + fractionLength (x.drop digits)
  let (kind, best) := if int < mantissa then (Kind.decimalLit, mantissa) else (Kind.intLit, int)
  let power := exponentLength (x.drop mantissa)
  if 0 < power ∧ best < mantissa + power then (.exponentLit, mantissa + power) else (kind, best)

/-! ## Quoted literals -/

/-- The longest character literal: a quote, then either `\'` or a run without quotes whose last byte
is no backslash, then a quote. The byte in front of the closing quote may itself be a quote. The
length is 0 if there is none. -/
def charLength : Bytes → Nat
  | 0x27 :: body =>
    let quoted := if body.take 3 = [0x5C, 0x27, 0x27] then 4 else 0
    let run := countWhile (· != 0x27) body
    if run < body.length then
      let closed := if 0 < run ∧ body[run - 1]? ≠ some 0x5C then run + 2 else 0
      let doubled := if body[run + 1]? = some 0x27 then run + 3 else 0
      max quoted (max closed doubled)
    else quoted
  | _ => 0

/-- Flags for the positions of a text, of which three are kept: positions three bytes apart share a flag. -/
structure Window where
  flags : Vector Bool 3 := .replicate 3 false
  deriving DecidableEq, Repr

namespace Window

def flag (w : Window) (p : Nat) : Bool := w.flags.get ⟨p % 3, Nat.mod_lt p (by decide)⟩

def mark (w : Window) (p : Nat) (flag : Bool) : Window := ⟨w.flags.set (p % 3) flag (Nat.mod_lt p (by decide))⟩

def anySet (w : Window) : Bool := w.flags.get 0 || w.flags.get 1 || w.flags.get 2

end Window

/-- Where a string literal can be: at `body` positions inside the repetition, at `closing` positions behind the last
byte, where a quote ends it. -/
structure StringRing where
  body : Window := {}
  closing : Window := {}
  deriving DecidableEq, Repr

namespace StringRing

def start : StringRing := { body := ({} : Window).mark 1 true }

/-- The flags behind the position `p` with the byte `b`; `next?` is the byte after it. An escaped quote is two bytes. -/
def step (r : StringRing) (p : Nat) (b : UInt8) (next? : Option UInt8) : StringRing :=
  let body := r.body.mark p false
  let closing := r.closing.mark p false
  if r.body.flag p then
    let body := if b = 0x5C ∧ next? = some 0x22 then body.mark (p + 2) true else body
    { body := if b ≠ 0x22 then body.mark (p + 1) true else body
      closing := if b ≠ 0x5C then closing.mark (p + 1) true else closing }
  else { body, closing }

end StringRing

/-- The end of the longest string literal: `p` bytes lie behind, `best` is the longest so far. -/
def stringEnd (r : StringRing) (p best : Nat) : Bytes → Nat
  | [] => best
  | b :: rest =>
    let best := if r.closing.flag p ∧ b = 0x22 then max best (p + 1) else best
    let next := r.step p b rest.head?
    if next.body.anySet ∨ next.closing.anySet then stringEnd next (p + 1) best rest else best

/-- The longest string literal: two quotes, or a quote, a run of escaped quotes and other bytes, a
last byte that is no backslash, and a quote. The length is 0 if there is none. -/
def stringLength : Bytes → Nat
  | 0x22 :: rest => stringEnd .start 1 (if rest.head? = some 0x22 then 2 else 0) rest
  | _ => 0

/-! ## The longest match -/

/-- The longest punctuation at the start of a text. -/
def matchPunctuation? (x : Bytes) : Option (Kind × Nat) :=
  [3, 2, 1].findSome? fun n =>
    if (x.take n).length = n then (Kind.ofPunctuation? (x.take n)).map fun k => (k, n) else none

/-- The literal in quotes at the start of a text, of length 0 if there is none. -/
def matchQuoted (x : Bytes) : Kind × Nat :=
  if 0 < charLength x then (.charLit, charLength x)
  else if 0 < stringLength x then (.stringLit, stringLength x)
  else (.invalid, 0)

/-- The token at the start of a non-empty text, of length 0 if no class matches. -/
def longestMatch (x : Bytes) : Kind × Nat :=
  match matchPunctuation? x with
  | some found => found
  | none =>
    if x.head?.any isDecimalDigit then matchNumber x
    else
      let quoted := matchQuoted x
      let n := wordLength x
      if quoted.2 < n then ((Kind.ofWord? (x.take n)).getD .ident, n) else quoted

/-- The number of bytes up to the next character: those at which none starts. -/
def strayLength : Bytes → Nat
  | [] => 0
  | b :: rest => if (Utf8.decode? (b :: rest)).isSome then 0 else strayLength rest + 1

end LetStack.Token
