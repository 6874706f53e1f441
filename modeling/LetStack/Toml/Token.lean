import LetStack.Text.Letter
import LetStack.Toml.Quoted

/-!
The tokens of a TOML text: names, values as they are written, and the marks around them. What may come
next depends on where the text stands, so reading goes step by step from one mode to the next; each step
gives at most one token. Comments give none.
-/

namespace LetStack.Toml

inductive TokenKind where
  /-- A name without quotes. -/
  | name
  | string
  | literal
  | longString
  | longLiteral
  | integer
  | float
  | truth
  | moment
  | arrayStart
  | arrayEnd
  | inlineStart
  | inlineEnd
  /-- Starts the name of a table, or of the next table of several. -/
  | heading (several : Bool)
  | headingEnd
  | keyStart
  | keyEnd
  deriving DecidableEq, Repr

/-- A token, with the line where it ends. -/
structure Token where
  kind : TokenKind
  text : List Char := []
  line : Nat
  deriving Repr

/-- What a value can be part of, besides an entry. -/
inductive Enclosure where
  | array
  | inline
  deriving DecidableEq, Repr

/-- Where in a text the reader stands. -/
inductive Mode where
  /-- In front of an entry or a line end. -/
  | entry
  /-- Behind an entry. -/
  | entryEnd
  | headingName (several : Bool)
  | headingEnd (several : Bool)
  | key
  | keyName
  | keyEnd
  | value
  /-- In front of an item of an array, and behind one. -/
  | element
  | elementEnd
  /-- In front of an assignment of a table in braces, and behind one. -/
  | field
  | fieldEnd
  deriving DecidableEq, Repr

structure Reader where
  mode : Mode := .entry
  /-- What is open around the cursor, innermost first. -/
  around : List Enclosure := []
  cursor : Cursor

namespace Reader

/-- The next step at another mode and place. -/
def goTo (r : Reader) (mode : Mode) (c : Cursor) : Reader := { r with mode, cursor := c }

/-- Behind a value. -/
def afterValue (around : List Enclosure) (c : Cursor) : Reader where
  mode := match around with
    | [] => .entryEnd
    | .array :: _ => .elementEnd
    | .inline :: _ => .fieldEnd
  around
  cursor := c

end Reader

/-- A step gives a token or none, and leads on or ends the text. -/
abbrev Step := Except Fault (Option Token × Option Reader)

/-- Goes on without a token. -/
def goOn (r : Reader) : Step := .ok (none, some r)

/-- Goes on with a token that ends at the cursor. -/
def give (kind : TokenKind) (text : List Char) (r : Reader) : Step :=
  .ok (some { kind, text, line := r.cursor.line }, some r)

/-! ## Numbers and words -/

/-- The rest of a number with a point or an exponent. -/
def readFloat (text : List Char) (c : Cursor) : Except Fault (TokenKind × List Char × Cursor) := do
  let (more, c) ← c.span fun d => d.isDigit || ['_', '.', '-', '+', 'e', 'E'].contains d
  return (.float, text ++ more, c)

def startsFraction (c : Char) : Bool := ['.', 'e', 'E'].contains c

/-- The rest of a decimal number. -/
def readDecimal (text : List Char) (c : Cursor) : Except Fault (TokenKind × List Char × Cursor) := do
  let (more, c) ← c.span fun d => d.isDigit || d == '_'
  if ((← c.peek).map startsFraction).getD false then readFloat (text ++ more) c
  else return (.integer, text ++ more, c)

/-- The rest of a date or time, without blanks behind it. -/
def readMoment (text : List Char) (c : Cursor) : Except Fault (TokenKind × List Char × Cursor) := do
  let (more, c) ← c.span fun d => d.isDigit || ['-', ':', 'T', 't', ' ', '.', 'Z', 'z', '+'].contains d
  return (.moment, ((text ++ more).reverse.dropWhile (· = ' ')).reverse, c)

/-- The rest of a decimal number, or of a date or time. -/
def readNumberOrMoment (text : List Char) (c : Cursor) : Except Fault (TokenKind × List Char × Cursor) := do
  let (more, c) ← c.span Char.isDigit
  let text := text ++ more
  match ← c.peek with
  | some d =>
    if d = '-' ∨ d = ':' then readMoment text c
    else if d = '_' ∨ startsFraction d then readDecimal text c
    else return (.integer, text, c)
  | none => return (.integer, text, c)

/-- The digits of a number behind the mark of its base. -/
def readBased (mark : Char) (title : Bytes) (isDigit : UInt8 → Bool) (c : Cursor) :
    Except Fault (TokenKind × List Char × Cursor) := do
  let fits (d : Char) : Bool := d.toNat < 0x80 && isDigit (Bytes.ofChar d)
  let first ← c.peek
  if !(first.map fits).getD false then
    c.fail ("not " ++ title ++ " number: '" ++ Utf8.ofChars ['0', mark] ++ plainChar first ++ "'")
  let (digits, c) ← c.span fun d => fits d || d == '_'
  return (.integer, '0' :: mark :: digits, c)

/-- What starts with a zero; the cursor stands behind it. -/
def readZero (c : Cursor) : Except Fault (TokenKind × List Char × Cursor) := do
  let (d, behind) ← c.next
  match d with
  | some 'b' => readBased 'b' "a binary" isBinaryDigit behind
  | some 'o' => readBased 'o' "an octal" isOctalDigit behind
  | some 'x' => readBased 'x' "a hexidecimal" isHexDigit behind
  | some d =>
    if d.isDigit then readNumberOrMoment ['0', d] behind
    else if d = '_' ∨ startsFraction d then readDecimal ['0'] c
    else return (.integer, ['0'], c)
  | none => return (.integer, ['0'], c)

/-- The two letters that are to follow, one after the other. -/
def acceptBoth (c : Cursor) (a b : Char) : Except Fault (Bool × List Char × Cursor) := do
  let (first, c) ← c.accept a
  if !first then return (false, [], c)
  let (second, c) ← c.accept b
  return if second then (true, [a, b], c) else (false, [a], c)

/-- A number behind its sign. -/
def readSigned (sign : Char) (c : Cursor) : Except Fault (TokenKind × List Char × Cursor) := do
  let (d, behind) ← c.next
  let word (letter a b : Char) : Except Fault (TokenKind × List Char × Cursor) := do
    let (whole, letters, behind) ← acceptBoth behind a b
    let text := sign :: letter :: letters
    if whole then return (.float, text, behind)
    else behind.fail ("invalid float: '" ++ Utf8.ofChars text ++ "'")
  match d with
  | some 'i' => word 'i' 'n' 'f'
  | some 'n' => word 'n' 'a' 'n'
  | some '.' => behind.fail "floats must start with a digit, not '.'"
  | _ =>
    if d = some '0' then
      let mark ← behind.peek
      if (mark.map fun m => ['b', 'o', 'x'].contains m).getD false then
        behind.fail ("cannot use sign with non-decimal numbers: '" ++ Utf8.ofChars [sign, '0'] ++ plainChar mark ++ "'")
    if (d.map Char.isDigit).getD false then readDecimal [sign] c
    else behind.failBehind d ("expected a digit but got " ++ shownChar d)

def readTruth (c : Cursor) : Except Fault (TokenKind × List Char × Cursor) := do
  let (word, c) ← c.span Text.isLetter
  if word = "true".toList ∨ word = "false".toList then return (.truth, word, c)
  else c.fail ("expected value but found " ++ shownText word ++ " instead")

/-- A word that starts like a number without digits. If it is none, its last letter that could belong to
one starts the word that is to blame. -/
def readInfinite (first : Char) (start c : Cursor) : Except Fault (TokenKind × List Char × Cursor) := do
  let (whole, letters, behind) ← acceptBoth c 'n' 'f'
  if whole then return (.float, first :: letters, behind)
  let (whole, more, last) ← acceptBoth behind 'a' 'n'
  if whole then return (.float, first :: letters ++ more, last)
  readTruth (if letters = [] ∧ more = [] then start else if letters = [] ∨ more = [] then c else behind)

/-! ## Values -/

/-- A string, from behind its first quote. -/
def readQuotes (q : Char) (c : Cursor) : Except Fault (TokenKind × List Char × Cursor) := do
  let (_, letters, behind) ← acceptBoth c q q
  let (kind, text, behind) ←
    if letters.length = 2 then
      if q = '"' then pure (TokenKind.longString, ← readLongString [] .outside behind.line behind.rest)
      else pure (TokenKind.longLiteral, ← readLongLiteral [] behind.line behind.rest)
    else if q = '"' then pure (TokenKind.string, ← readString [] .outside c.line c.rest)
    else pure (TokenKind.literal, ← readLiteral c.line c.rest)
  return (kind, text, behind)

/-- A value that holds no others, at its first character. -/
def readScalar (start : Cursor) : Except Fault (TokenKind × List Char × Cursor) := do
  let (first, c) ← start.next
  match first with
  | none => c.failBehind first "unexpected EOF; expected value"
  | some d =>
    if d = '0' then readZero c
    else if d.isDigit then readNumberOrMoment [d] c
    else if d = '"' ∨ d = '\'' then readQuotes d c
    else if d = '.' then c.fail "floats must start with a digit, not '.'"
    else if d = 'i' ∨ d = 'n' then readInfinite d start c
    else if d = '-' ∨ d = '+' then readSigned d c
    else if Text.isLetter d then readTruth start
    else c.fail ("expected value but found " ++ Text.quoteChar d ++ " instead")

/-- A value, or the start of one. -/
def Reader.value (r : Reader) : Step := do
  let start ← r.cursor.skip isBlank
  match ← start.next with
  | (some '[', c) => give .arrayStart [] { mode := .element, around := .array :: r.around, cursor := c }
  | (some '\x7b', c) => give .inlineStart [] { mode := .field, around := .inline :: r.around, cursor := c }
  | _ =>
    let (kind, text, c) ← readScalar start
    give kind text (.afterValue r.around c)

/-! ## Keys -/

/-- One name of a key, at its first character. -/
def Reader.nameAt (r : Reader) (c : Cursor) (next : Mode) : Step := do
  match ← c.next with
  | (some '"', behind) =>
    let (text, behind) ← readString [] .outside behind.line behind.rest
    give .string text (r.goTo next behind)
  | (some '\'', behind) =>
    let (text, behind) ← readLiteral behind.line behind.rest
    give .literal text (r.goTo next behind)
  | _ =>
    let (text, behind) ← c.span isBareKeyChar
    give .name text (r.goTo next behind)

def Reader.key (r : Reader) : Step := do
  let c ← r.cursor.skip isBlank
  match ← c.peek with
  | none | some '=' => c.fail "unexpected '=': key name appears blank"
  | some '.' => c.fail "unexpected '.': keys cannot start with a '.'"
  | _ => give .keyStart [] (r.goTo .keyName c)

def Reader.keyName (r : Reader) : Step := do
  let c ← r.cursor.skip isBlank
  match ← c.peek with
  | none | some '=' => c.fail "unexpected '='"
  | some '.' => c.fail "unexpected '.'"
  | _ => r.nameAt c .keyEnd

def Reader.keyEnd (r : Reader) : Step := do
  let (read, c) ← (← r.cursor.skip isBlank).next
  match read with
  | none => c.failBehind read "unexpected EOF; expected key separator '='"
  | some '.' => goOn (r.goTo .keyName c)
  | some '=' => give .keyEnd [] (r.goTo .value c)
  | some d => c.fail ("expected '.' or '=', but got " ++ Text.quoteChar d ++ " instead")

def Reader.headingName (r : Reader) (several : Bool) : Step := do
  let c ← r.cursor.skip isBlank
  match ← c.peek with
  | none | some ']' => c.fail "unexpected end of table name (table names cannot be empty)"
  | some '.' => c.fail "unexpected table separator (table names cannot be empty)"
  | _ => r.nameAt c (.headingEnd several)

def Reader.headingEnd (r : Reader) (several : Bool) : Step := do
  let (read, c) ← (← r.cursor.skip isBlank).next
  match read with
  | some '.' => goOn (r.goTo (.headingName several) c)
  | some ']' =>
    if !several then give .headingEnd [] (r.goTo .entryEnd c)
    else
      let (read, c) ← c.next
      if read = some ']' then give .headingEnd [] (r.goTo .entryEnd c)
      else
        c.failBehind read
          ("expected end of table array name delimiter ']', but got " ++ shownChar read ++ " instead")
  | _ => c.failBehind read ("expected '.' or ']' to end table name, but got " ++ shownChar read ++ " instead")

/-! ## Entries -/

def Reader.comment (r : Reader) (mode : Mode) (c : Cursor) : Step := do
  goOn (r.goTo mode (← c.skip fun d => !isLineEnd d))

def Reader.entry (r : Reader) : Step := do
  let (read, c) ← r.cursor.next
  match read with
  | none => return (none, none)
  | some '#' => r.comment .entry c
  | some '[' =>
    let (several, c) ← c.accept '['
    give (.heading several) [] (r.goTo (.headingName several) c)
  | some d => if isBlank d || isLineEnd d then goOn (r.goTo .entry c) else goOn (r.goTo .key r.cursor)

def Reader.entryEnd (r : Reader) : Step := do
  let (read, c) ← r.cursor.next
  match read with
  | none => return (none, none)
  | some '#' => r.comment .entry c
  | some d =>
    if isBlank d then goOn (r.goTo .entryEnd c)
    else if isLineEnd d then goOn (r.goTo .entry c)
    else
      c.fail
        ("expected a top-level item to end with a newline, comment, or EOF, but got " ++ Text.quoteChar d ++ " instead")

/-- The end of an array or of a table in braces. -/
def Reader.close (r : Reader) (kind : TokenKind) (c : Cursor) : Step := give kind [] (.afterValue r.around.tail c)

def Reader.element (r : Reader) : Step := do
  let c ← r.cursor.skip fun d => isBlank d || isLineEnd d
  match ← c.next with
  | (some '#', c) => r.comment .element c
  | (some ',', c) => c.fail "unexpected comma"
  | (some ']', c) => r.close .arrayEnd c
  | _ => goOn (r.goTo .value c)

def Reader.elementEnd (r : Reader) : Step := do
  let (read, c) ← (← r.cursor.skip fun d => isBlank d || isLineEnd d).next
  match read with
  | some '#' => r.comment .elementEnd c
  | some ',' => goOn (r.goTo .element c)
  | some ']' => r.close .arrayEnd c
  | _ => c.failBehind read ("expected a comma (',') or array terminator (']'), but got " ++ charOrEnd read)

def Reader.field (r : Reader) : Step := do
  let start ← r.cursor.skip isBlank
  match ← start.next with
  | (some '\n', c) | (some '\r', c) => c.failBefore "newlines not allowed within inline tables"
  | (some '#', c) => r.comment .field c
  | (some ',', c) => c.fail "unexpected comma"
  | (some '\x7d', c) => r.close .inlineEnd c
  | _ => goOn (r.goTo .key start)

def Reader.fieldEnd (r : Reader) : Step := do
  let (read, c) ← (← r.cursor.skip isBlank).next
  match read with
  | some '\n' | some '\r' => c.failBefore "newlines not allowed within inline tables"
  | some '#' => r.comment .fieldEnd c
  | some ',' =>
    let c ← c.skip isBlank
    if (← c.peek) = some '\x7d' then c.fail "trailing comma not allowed in inline tables"
    goOn (r.goTo .field c)
  | some '\x7d' => r.close .inlineEnd c
  | _ =>
    c.failBehind read
      ("expected a comma or an inline table terminator '\x7d', but got " ++ charOrEnd read ++ " instead")

def Reader.step (r : Reader) : Step :=
  match r.mode with
  | .entry => r.entry
  | .entryEnd => r.entryEnd
  | .headingName several => r.headingName several
  | .headingEnd several => r.headingEnd several
  | .key => r.key
  | .keyName => r.keyName
  | .keyEnd => r.keyEnd
  | .value => r.value
  | .element => r.element
  | .elementEnd => r.elementEnd
  | .field => r.field
  | .fieldEnd => r.fieldEnd

/-- The tokens in front of the first fault, and that fault if there is one; `n` bounds the steps. -/
def Reader.tokens : Nat → Reader → List Token × Option Fault
  | 0, _ => ([], none)
  | n + 1, r =>
    match r.step with
    | .error f => ([], some f)
    | .ok (token, next) =>
      let (more, fault) := match next with
        | none => ([], none)
        | some r => tokens n r
      (token.toList ++ more, fault)

/-- The tokens of a text. Of five steps in a row at least one reads on. -/
def tokens (text : Bytes) : List Token × Option Fault :=
  let pieces := Utf8.pieces text
  Reader.tokens (5 * pieces.length + 5) { cursor := { rest := pieces } }

end LetStack.Toml
