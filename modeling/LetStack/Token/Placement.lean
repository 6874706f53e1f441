import LetStack.Text.Quoted
import LetStack.Token.Basic

/-!
Where tokens lie: inside the source, none of them empty, in order without overlap, and each with
exactly the bytes it covers. `misplaced?` finds the first token that does not.
-/

namespace LetStack.Token

inductive Misplacement where
  | empty
  | beyond (size : Nat)
  /-- It starts before the previous token ends. -/
  | overlap (previous : UInt32)
  /-- Its text is not what the source has there. -/
  | differs (source : Bytes)
  deriving DecidableEq, Repr, Inhabited

namespace Misplacement

/-- The misplacement of the token with an index, in words. -/
def message (index : Nat) (t : Token) : Misplacement → Bytes
  | empty =>
    "token " ++ Bytes.ofNat index ++ " (" ++ t.kind.name ++ ") has empty span " ++
      Bytes.ofWord t.span.start ++ ".." ++ Bytes.ofWord t.span.stop
  | beyond size =>
    "token " ++ Bytes.ofNat index ++ " (" ++ t.kind.name ++ ") ends beyond content: " ++
      Bytes.ofWord t.span.stop ++ " > " ++ Bytes.ofNat size
  | overlap previous =>
    "token " ++ Bytes.ofNat index ++ " (" ++ t.kind.name ++ ") at " ++ Bytes.ofWord t.span.start ++
      " overlaps previous token ending at " ++ Bytes.ofWord previous
  | differs source =>
    "token " ++ Bytes.ofNat index ++ " text " ++ Text.quote t.text ++ " does not match source " ++
      Text.quote source

end Misplacement

/-- The first misplaced token behind the end of the previous one, in words. -/
def misplacedFrom? (src : Bytes) (index : Nat) (previous : UInt32) : List Token → Option Bytes
  | [] => none
  | t :: rest =>
    let s := t.span
    let found := (src.drop s.start.toNat).take (s.stop.toNat - s.start.toNat)
    if s.stop ≤ s.start then some (Misplacement.empty.message index t)
    else if src.length < s.stop.toNat then some ((Misplacement.beyond src.length).message index t)
    else if s.start < previous then some ((Misplacement.overlap previous).message index t)
    else if t.text ≠ found then some ((Misplacement.differs found).message index t)
    else misplacedFrom? src (index + 1) s.stop rest

/-- What is wrong with the first token that does not lie right in the source. -/
def misplaced? (src : Bytes) (toks : List Token) : Option Bytes := misplacedFrom? src 0 0 toks

end LetStack.Token
