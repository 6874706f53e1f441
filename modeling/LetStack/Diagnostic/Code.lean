import LetStack.Text.Bytes

/-!
Diagnostic codes and severities. A code is a number; its thousand says which part of the compiler
reports it.
-/

namespace LetStack

inductive Severity where
  | info
  | warning
  | error
  /-- A severity above the three known ones. -/
  | unknown (level : Nat)
  deriving DecidableEq, Repr, Inhabited

namespace Severity

def level : Severity → Nat
  | info => 0
  | warning => 1
  | error => 2
  | unknown n => n

def ofLevel : Nat → Severity
  | 0 => info
  | 1 => warning
  | 2 => error
  | n => unknown n

def name : Severity → String
  | info => "INFO"
  | warning => "WARNING"
  | error => "ERROR"
  | unknown _ => "UNKNOWN"

end Severity

structure Code where
  number : Nat
  deriving DecidableEq, Repr, Inhabited

namespace Code

def unknown : Code := ⟨0⟩
def lexical : Code := ⟨1000⟩
def unrecognizedInput : Code := ⟨1001⟩
def syntactic : Code := ⟨2000⟩
def unexpectedToken : Code := ⟨2001⟩
def expectedSemicolon : Code := ⟨2002⟩
def expectedExpression : Code := ⟨2003⟩
def unclosedParenthesis : Code := ⟨2004⟩
def trailingInput : Code := ⟨2005⟩
def unsupportedSyntax : Code := ⟨2099⟩
def lowering : Code := ⟨3000⟩
def undefinedName : Code := ⟨3001⟩
def placeholderValue : Code := ⟨3002⟩
def literalOutOfRange : Code := ⟨3003⟩
def malformedLiteral : Code := ⟨3004⟩
def invalidEscape : Code := ⟨3005⟩
def internalError : Code := ⟨3098⟩
def unsupportedFeature : Code := ⟨3099⟩
def unreadableFile : Code := ⟨4001⟩

/-- The letters in front of a code's number; a number outside the four ranges has none. -/
def family? (c : Code) : Option String :=
  match c.number / 1000 with
  | 1 => some "LEX"
  | 2 => some "SYN"
  | 3 => some "GEN"
  | 4 => some "IO"
  | _ => none

/-- The code as it is printed: family and four digits. -/
def id (c : Code) : Bytes :=
  match c.family? with
  | some family => family ++ Bytes.padZeros 4 (Bytes.ofNat c.number)
  | none => "E0000"

def title (c : Code) : String :=
  match c.number with
  | 1000 => "Lexical information"
  | 1001 => "Unrecognized input"
  | 2000 => "Syntax information"
  | 2001 => "Unexpected token"
  | 2002 => "Expected ';'"
  | 2003 => "Expected expression"
  | 2004 => "Unclosed parenthesis"
  | 2005 => "Unconsumed input after module"
  | 2099 => "Syntax not yet supported"
  | 3000 => "Codegen information"
  | 3001 => "Undefined name"
  | 3002 => "Placeholder used as value"
  | 3003 => "Literal out of range"
  | 3004 => "Malformed literal"
  | 3005 => "Invalid escape sequence"
  | 3098 => "Internal compiler error"
  | 3099 => "Feature not yet supported"
  | 4001 => "Failed to load file"
  | _ => "Unknown error"

/-- Whether the code speaks of something the compiler does not support yet. -/
def isUnsupported (c : Code) : Bool := c == unsupportedSyntax || c == unsupportedFeature

end Code

end LetStack
