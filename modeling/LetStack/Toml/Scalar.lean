import LetStack.Decimal.Reader
import LetStack.Toml.Token

/-!
The values that strings, numbers, dates and times of a TOML text stand for. A token has the right
characters; here it is checked as a whole.
-/

namespace LetStack.Toml

/-! ## Strings -/

/-- Without a line end at the start. -/
def dropFirstLineEnd : List Char → List Char
  | '\r' :: '\n' :: rest => rest
  | '\n' :: rest => rest
  | cs => cs

def isSpace (c : Char) : Bool := isBlank c || isLineEnd c

/-- Without each backslash that has only white space between it and the next line end, and without the
white space up to the next other character. -/
def joinLines : List Char → List Char
  | [] => []
  | '\\' :: '\\' :: rest => '\\' :: '\\' :: joinLines rest
  | c :: rest =>
    if c = '\\' ∧ (rest.takeWhile isSpace).contains '\n' then joinLines (rest.dropWhile isSpace)
    else c :: joinLines rest
termination_by cs => cs.length
decreasing_by
  · simp only [List.length_cons]; omega
  · have := (List.dropWhile_sublist isSpace (l := rest)).length_le
    simp only [List.length_cons]; omega
  · simp

/-- The character with a number in hexadecimal digits. -/
def charOfDigits (digits : List Char) : Except Bytes Char :=
  let n := digits.foldl (fun v c => v * 16 + (digitValue? (Bytes.ofChar c)).getD 0) 0
  if n < 0xD800 ∨ (0xDFFF < n ∧ n ≤ 0x10FFFF) then .ok (Char.ofNat n)
  else .error ("Escaped character '\\u" ++ Utf8.ofChars digits ++ "' is not valid UTF-8.")

/-- The characters that a string with escape sequences stands for. -/
def unescape : List Char → Except Bytes (List Char)
  | '\\' :: 'u' :: a :: b :: c :: d :: rest => do
    let x ← charOfDigits [a, b, c, d]
    return x :: (← unescape rest)
  | '\\' :: 'U' :: a :: b :: c :: d :: e :: f :: g :: h :: rest => do
    let x ← charOfDigits [a, b, c, d, e, f, g, h]
    return x :: (← unescape rest)
  | '\\' :: c :: rest => do
    let x ← match c with
      | 'b' => pure (Char.ofNat 8)
      | 't' => pure '\t'
      | 'n' => pure '\n'
      | 'f' => pure (Char.ofNat 12)
      | 'r' => pure '\r'
      | _ => if isBlank c then throw ("invalid escape: '\\" ++ Utf8.encode c ++ "'") else pure c
    return x :: (← unescape rest)
  | c :: rest => do return c :: (← unescape rest)
  | [] => pure []

/-! ## Dates and times -/

/-- A number of exactly `n` digits. -/
def digits? (n : Nat) (cs : List Char) : Option (Nat × List Char) :=
  let ds := cs.take n
  if ds.length = n ∧ ds.all Char.isDigit then
    some (ds.foldl (fun v c => v * 10 + (c.toNat - '0'.toNat)) 0, cs.drop n)
  else none

/-- Skips one given character. -/
def char? (c : Char) (cs : List Char) : Option (List Char) := if cs.head? = some c then some cs.tail else none

def isLeapYear (y : Nat) : Bool := y % 4 == 0 && (y % 100 != 0 || y % 400 == 0)

def daysInMonth (year month : Nat) : Nat :=
  if month = 2 then (if isLeapYear year then 29 else 28)
  else if month = 4 ∨ month = 6 ∨ month = 9 ∨ month = 11 then 30 else 31

/-- Skips a date that exists, as in `2006-01-02`. -/
def date? (cs : List Char) : Option (List Char) := do
  let (year, cs) ← digits? 4 cs
  let (month, cs) ← digits? 2 (← char? '-' cs)
  let (day, cs) ← digits? 2 (← char? '-' cs)
  if 1 ≤ month ∧ month ≤ 12 ∧ 1 ≤ day ∧ day ≤ daysInMonth year month then some cs else none

/-- Skips a time of day, with or without a fraction of a second. The hour may have one digit. -/
def time? (cs : List Char) : Option (List Char) := do
  let (hour, cs) ← (digits? 2 cs).or (digits? 1 cs)
  let (minute, cs) ← digits? 2 (← char? ':' cs)
  let (second, cs) ← digits? 2 (← char? ':' cs)
  if hour < 24 ∧ minute < 60 ∧ second < 60 then
    match cs with
    | '.' :: d :: rest => if d.isDigit then some (rest.dropWhile Char.isDigit) else some cs
    | _ => some cs
  else none

/-- Skips a distance from Greenwich, if there is one. -/
def zone? : List Char → Option (List Char)
  | [] => some []
  | c :: rest =>
    if c = 'Z' then some rest
    else if c = '+' ∨ c = '-' then do
      let (hours, rest) ← digits? 2 rest
      let (minutes, rest) ← digits? 2 (← char? ':' rest)
      if hours ≤ 24 ∧ minutes ≤ 60 then some rest else none
    else none

/-- Letters of a date and time as capitals; a blank between the two stands for the letter. -/
def capitalMoment (cs : List Char) : List Char :=
  cs.map fun c => if c = 't' ∨ c = ' ' then 'T' else if c = 'z' then 'Z' else c

/-- Whether the characters are a date, a time, or both with or without a zone. -/
def isMoment (cs : List Char) : Bool :=
  let both : Option (List Char) := do zone? (← time? (← char? 'T' (← date? cs)))
  [date? cs, time? cs, both].any (· == some [])

def momentOf (cs : List Char) : Except Bytes Value :=
  let cs := capitalMoment cs
  if isMoment cs then .ok .moment else .error ("Invalid TOML Datetime: " ++ shownText cs ++ ".")

/-! ## Numbers -/

/-- The numbers without digits, with or without sign. -/
def isInfinite (cs : List Char) : Bool :=
  let word := if cs.head? = some '+' ∨ cs.head? = some '-' then cs.tail else cs
  word == "inf".toList || word == "nan".toList

/-- Whether each underscore follows a digit or letter digit, and the text ends with one of these. -/
def underscoresFine (cs : List Char) : Bool :=
  (cs.zip (cs.drop 1)).all (fun (a, b) => b != '_' || isHexadecimal a) && cs.head? != some '_' &&
    (cs.getLast?.map isHexadecimal).getD false

/-- Whether a decimal number starts with a zero that it should not have. -/
def hasLeadingZero : List Char → Bool
  | '0' :: c :: _ => !(['b', 'o', 'x'].contains c)
  | s :: '0' :: _ :: _ => s == '+' || s == '-'
  | _ => false

def isSmallInteger (n : Int) : Bool := -0x8000000000000000 ≤ n && n < 0x8000000000000000

/-- The size of a number by its digits, of which the mark of the base comes first. -/
def sizeOfDigits (cs : List Char) : Nat :=
  let (base, digits) := match cs with
    | '0' :: 'x' :: ds => (16, ds)
    | '0' :: 'o' :: ds => (8, ds)
    | '0' :: 'b' :: ds => (2, ds)
    | ds => (10, ds)
  (digits.filter (· != '_')).foldl (fun v c => v * base + (digitValue? (Bytes.ofChar c)).getD 0) 0

def integerOf (cs : List Char) : Except Bytes Value := do
  if !underscoresFine cs then
    throw ("Invalid integer " ++ shownText cs ++ ": underscores must be surrounded by digits")
  if hasLeadingZero cs then throw ("Invalid integer " ++ shownText cs ++ ": cannot have leading zeroes")
  let n : Int := match cs with
    | '-' :: ds => -(sizeOfDigits ds : Int)
    | '+' :: ds => sizeOfDigits ds
    | ds => sizeOfDigits ds
  if isSmallInteger n then return .integer n
  else throw (Utf8.ofChars cs ++ Bytes.ofString " is out of range for int64")

/-- Whether a point is always in front of a digit. -/
def pointsFine (cs : List Char) : Bool :=
  (cs.zip (cs.drop 1)).all (fun (a, b) => a != '.' || b.isDigit) && cs.getLast? != some '.'

/-- Checks a number with a point or an exponent, or without digits. -/
def floatOf (cs : List Char) : Except Bytes Value := do
  if isInfinite cs then return .float
  let parts := (cs.splitBy fun a b => !startsFraction a && !startsFraction b).filter fun p =>
    !p.all startsFraction
  let invalid : Bytes := "Invalid float " ++ shownText cs ++ ": "
  if !parts.all underscoresFine then throw (invalid ++ Bytes.ofString "underscores must be surrounded by digits")
  if hasLeadingZero (parts.headD []) then throw (invalid ++ Bytes.ofString "cannot have leading zeroes")
  if !pointsFine cs then throw (invalid ++ Bytes.ofString "'.' must be followed by one or more digits")
  match Binary64.ofText (Utf8.ofChars (cs.filter (· != '_'))) with
  | .ok _ => return .float
  | .error .malformed => throw ("Invalid float value: " ++ shownText cs)
  | .error .outOfRange => throw (Utf8.ofChars cs ++ Bytes.ofString " is out of range for float64")

/-- The value that a token stands for, if it is one that holds no others, or what is wrong with it. -/
def Token.value? (t : Token) : Option (Except Bytes Value) :=
  let text (cs : Except Bytes (List Char)) : Except Bytes Value := cs.map fun cs => .text (Utf8.ofChars cs)
  match t.kind with
  | .name | .literal => some (text (.ok t.text))
  | .string => some (text (unescape t.text))
  | .longString => some (text (unescape (joinLines (dropFirstLineEnd t.text))))
  | .longLiteral => some (text (.ok (dropFirstLineEnd t.text)))
  | .integer => some (integerOf t.text)
  | .float => some (floatOf t.text)
  | .truth => some (.ok (.bool (t.text == "true".toList)))
  | .moment => some (momentOf t.text)
  | _ => none

end LetStack.Toml
