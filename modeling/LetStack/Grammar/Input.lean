import LetStack.Token.Basic

/-!
A position in a sequence of tokens. Moving on gives a new position, so going back is keeping the
old one.
-/

namespace LetStack.Grammar

structure Input where
  tokens : Array Token
  pos : Nat := 0
  deriving Repr, Inhabited

namespace Input

/-- The token at the position, none at the end of input. -/
def peek? (i : Input) : Option Token := i.tokens[i.pos]?

/-- One token further; the end of input stays where it is. -/
def advance (i : Input) : Input := { i with pos := if i.pos < i.tokens.size then i.pos + 1 else i.pos }

/-- The position with index `n`, moved into the range of the tokens. -/
def moveTo (i : Input) (n : Int) : Input := { i with pos := min n.toNat i.tokens.size }

def atEnd (i : Input) : Bool := i.tokens.size ≤ i.pos

/-- How many tokens are left. -/
def left (i : Input) : Nat := i.tokens.size - i.pos

/-- Where the position is: the span of its token, and at the end of input the empty range behind the
last token. -/
def span (i : Input) : Span :=
  match i.peek? with
  | some tok => tok.span
  | none =>
    match i.tokens.back? with
    | some last =>
      { start := last.span.stop, stop := last.span.stop, line := last.span.line
        column := last.span.column }
    | none => {}

/-- The span of the tokens between `start` and `i`. -/
def consumedFrom (i start : Input) : Span :=
  Span.joinAll ((i.tokens.extract start.pos i.pos).toList.map Token.span)

/-- How a message names what is at the position. -/
def found (i : Input) : Bytes :=
  match i.peek? with
  | some tok => tok.kind.describe
  | none => "end of input"

end Input

end LetStack.Grammar
