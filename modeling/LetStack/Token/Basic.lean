import LetStack.Source.Span
import LetStack.Token.Kind

/-!
A token is a kind, the bytes it stands for and where they lie.
-/

namespace LetStack

structure Token where
  kind : Token.Kind := .invalid
  span : Span := {}
  text : Bytes := []
  deriving DecidableEq, Repr, Inhabited

end LetStack
