import LetStack.Text.Bytes

/-!
Token kinds: unrecognized input, punctuation, keywords, identifiers, the placeholder and the six
literal classes. A kind with one spelling is described in messages by that spelling, a class by its
name.
-/

namespace LetStack.Token

inductive Kind where
  | invalid
  | bang | hash | dollar | percent | amp | star | plus | comma | minus | dot | slash | colon
  | semicolon | lt | assign | gt | question | at | backslash | caret | pipe | tilde | lParen
  | lBracket | lBrace | rParen | rBracket | rBrace
  | andAnd | orOr | eqEq | bangEq | ltEq | gtEq | arrow | dotDot | dotDotEq | questionDot
  | kwAs | kwBreak | kwContinue | kwElse | kwExtern | kwFn | kwFor | kwIf | kwImpl | kwIn | kwLet
  | kwMatch | kwPub | kwReturn | kwSelf | kwSelfType | kwStruct | kwTrait | kwType | kwUnion
  | kwUse | kwWhere | kwWhile
  | ident | placeholder | charLit | stringLit | intLit | decimalLit | exponentLit | boolLit
  deriving DecidableEq, Repr, Inhabited

namespace Kind

/-- The punctuation marks of one byte. -/
def marks : List Kind :=
  [.bang, .hash, .dollar, .percent, .amp, .star, .plus, .comma, .minus, .dot, .slash, .colon,
   .semicolon, .lt, .assign, .gt, .question, .at, .backslash, .caret, .pipe, .tilde, .lParen,
   .lBracket, .lBrace, .rParen, .rBracket, .rBrace]

/-- The punctuation of two or three bytes. -/
def compounds : List Kind :=
  [.andAnd, .orOr, .eqEq, .bangEq, .ltEq, .gtEq, .arrow, .dotDot, .dotDotEq, .questionDot]

def keywords : List Kind :=
  [.kwAs, .kwBreak, .kwContinue, .kwElse, .kwExtern, .kwFn, .kwFor, .kwIf, .kwImpl, .kwIn,
   .kwLet, .kwMatch, .kwPub, .kwReturn, .kwSelf, .kwSelfType, .kwStruct, .kwTrait, .kwType,
   .kwUnion, .kwUse, .kwWhere, .kwWhile]

def classes : List Kind :=
  [.ident, .placeholder, .charLit, .stringLit, .intLit, .decimalLit, .exponentLit, .boolLit]

/-- Every kind, in the order of the inductive type. -/
def all : List Kind := .invalid :: marks ++ compounds ++ keywords ++ classes

/-- The text of a kind that has only one; the keywords and the placeholder are words, the rest is
punctuation. -/
def spelling? : Kind → Option String
  | .bang => some "!"
  | .hash => some "#"
  | .dollar => some "$"
  | .percent => some "%"
  | .amp => some "&"
  | .star => some "*"
  | .plus => some "+"
  | .comma => some ","
  | .minus => some "-"
  | .dot => some "."
  | .slash => some "/"
  | .colon => some ":"
  | .semicolon => some ";"
  | .lt => some "<"
  | .assign => some "="
  | .gt => some ">"
  | .question => some "?"
  | .at => some "@"
  | .backslash => some "\\"
  | .caret => some "^"
  | .pipe => some "|"
  | .tilde => some "~"
  | .lParen => some "("
  | .lBracket => some "["
  | .lBrace => some "\x7b"
  | .rParen => some ")"
  | .rBracket => some "]"
  | .rBrace => some "\x7d"
  | .andAnd => some "&&"
  | .orOr => some "||"
  | .eqEq => some "=="
  | .bangEq => some "!="
  | .ltEq => some "<="
  | .gtEq => some ">="
  | .arrow => some "->"
  | .dotDot => some ".."
  | .dotDotEq => some "..="
  | .questionDot => some "?."
  | .kwAs => some "as"
  | .kwBreak => some "break"
  | .kwContinue => some "continue"
  | .kwElse => some "else"
  | .kwExtern => some "extern"
  | .kwFn => some "fn"
  | .kwFor => some "for"
  | .kwIf => some "if"
  | .kwImpl => some "impl"
  | .kwIn => some "in"
  | .kwLet => some "let"
  | .kwMatch => some "match"
  | .kwPub => some "pub"
  | .kwReturn => some "return"
  | .kwSelf => some "self"
  | .kwSelfType => some "Self"
  | .kwStruct => some "struct"
  | .kwTrait => some "trait"
  | .kwType => some "type"
  | .kwUnion => some "union"
  | .kwUse => some "use"
  | .kwWhere => some "where"
  | .kwWhile => some "while"
  | .placeholder => some "_"
  | _ => none

/-- The name of a kind in token listings. -/
def name : Kind → String
  | .invalid => "Invalid"
  | .bang => "Bang"
  | .hash => "Hash"
  | .dollar => "Dollar"
  | .percent => "Percent"
  | .amp => "Amp"
  | .star => "Star"
  | .plus => "Plus"
  | .comma => "Comma"
  | .minus => "Minus"
  | .dot => "Dot"
  | .slash => "Slash"
  | .colon => "Colon"
  | .semicolon => "Semicolon"
  | .lt => "Lt"
  | .assign => "Assign"
  | .gt => "Gt"
  | .question => "Question"
  | .at => "At"
  | .backslash => "Backslash"
  | .caret => "Caret"
  | .pipe => "Pipe"
  | .tilde => "Tilde"
  | .lParen => "LParen"
  | .lBracket => "LBracket"
  | .lBrace => "LBrace"
  | .rParen => "RParen"
  | .rBracket => "RBracket"
  | .rBrace => "RBrace"
  | .andAnd => "AndAnd"
  | .orOr => "OrOr"
  | .eqEq => "EqEq"
  | .bangEq => "BangEq"
  | .ltEq => "LtEq"
  | .gtEq => "GtEq"
  | .arrow => "Arrow"
  | .dotDot => "DotDot"
  | .dotDotEq => "DotDotEq"
  | .questionDot => "QuestionDot"
  | .kwAs => "KwAs"
  | .kwBreak => "KwBreak"
  | .kwContinue => "KwContinue"
  | .kwElse => "KwElse"
  | .kwExtern => "KwExtern"
  | .kwFn => "KwFn"
  | .kwFor => "KwFor"
  | .kwIf => "KwIf"
  | .kwImpl => "KwImpl"
  | .kwIn => "KwIn"
  | .kwLet => "KwLet"
  | .kwMatch => "KwMatch"
  | .kwPub => "KwPub"
  | .kwReturn => "KwReturn"
  | .kwSelf => "KwSelf"
  | .kwSelfType => "KwSelfType"
  | .kwStruct => "KwStruct"
  | .kwTrait => "KwTrait"
  | .kwType => "KwType"
  | .kwUnion => "KwUnion"
  | .kwUse => "KwUse"
  | .kwWhere => "KwWhere"
  | .kwWhile => "KwWhile"
  | .ident => "Ident"
  | .placeholder => "Placeholder"
  | .charLit => "CharLit"
  | .stringLit => "StringLit"
  | .intLit => "IntLit"
  | .decimalLit => "DecimalLit"
  | .exponentLit => "ExponentLit"
  | .boolLit => "BoolLit"

/-- What a class of tokens is called in messages; the name of a kind that is no class. -/
def className : Kind → String
  | .invalid => "unrecognized input"
  | .ident => "identifier"
  | .charLit => "char literal"
  | .stringLit => "string literal"
  | .intLit => "integer literal"
  | .decimalLit => "decimal literal"
  | .exponentLit => "exponent literal"
  | .boolLit => "boolean literal"
  | k => k.name

/-- How a message speaks of a kind: its spelling between backquotes, or the name of its class. -/
def describe (k : Kind) : Bytes :=
  match k.spelling? with
  | some s => "`" ++ (s : Bytes) ++ "`"
  | none => k.className

def isLiteral (k : Kind) : Bool :=
  match k with
  | .charLit | .stringLit | .intLit | .decimalLit | .exponentLit | .boolLit => true
  | _ => false

def isPunctuation (k : Kind) : Bool := marks.contains k || compounds.contains k

def isKeyword (k : Kind) : Bool := keywords.contains k

def spelled (kinds : List Kind) : List (Bytes × Kind) :=
  kinds.filterMap fun k => k.spelling?.map fun s => (Bytes.ofString s, k)

def punctuationTable : List (Bytes × Kind) := spelled (marks ++ compounds)

/-- The words that are no identifiers: the keywords, `_` and the two truth values. -/
def fixedWords : List (Bytes × Kind) :=
  ("true", .boolLit) :: ("false", .boolLit) :: spelled (keywords ++ [.placeholder])

/-- The punctuation with exactly this spelling. -/
def ofPunctuation? (w : Bytes) : Option Kind := punctuationTable.lookup w

/-- The kind of a fixed word. -/
def ofWord? (w : Bytes) : Option Kind := fixedWords.lookup w

/-- The bytes that are a punctuation mark by themselves. -/
def markBytes : List UInt8 := (spelled marks).flatMap (·.1)

def isMark (b : UInt8) : Bool := markBytes.contains b

end Kind

end LetStack.Token
