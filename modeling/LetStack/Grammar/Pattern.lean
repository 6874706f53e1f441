import LetStack.Grammar.Module

/-!
Rules as data. A pattern describes a rule by the ways rules are put together; the rule of a pattern
yields a value that shows how it matched.
-/

namespace LetStack.Grammar

inductive Pattern where
  | tag (kind : Token.Kind)
  | oneOf (kinds : List Token.Kind)
  | alt (patterns : List Pattern)
  | seq (patterns : List Pattern)
  | pair (first second : Pattern)
  | preceded (first pattern : Pattern)
  | terminated (pattern last : Pattern)
  | delimited (opening pattern closing : Pattern)
  | separated (sep element : Pattern)
  | many0 (pattern : Pattern)
  | opt (pattern : Pattern)
  | allConsuming (pattern : Pattern)
  /-- The pattern itself, looked at only when it is needed. -/
  | deferred (pattern : Pattern)
  | label (pattern : Pattern) (what : Bytes) (code : Code)
  | unimplemented (trigger : Pattern) (feature : Bytes)
  | name
  | foreign (message : Bytes)
  | empty
  deriving Repr, Inhabited

inductive Value where
  | token (tok : Token)
  | list (values : List Value)
  | pair (first second : Value)
  | option (value : Option Value)
  | name (name : Ast.Name)
  | empty
  deriving Repr, Inhabited

namespace Pattern

mutual

def rule : Pattern → Rule Value
  | tag kind => (Rule.tag kind).map .token
  | oneOf kinds => (Rule.oneOf kinds).map .token
  | alt patterns => Rule.alt (rules patterns)
  | seq patterns => (Rule.seq (rules patterns)).map .list
  | pair first second => (Rule.pair first.rule second.rule).map fun (a, b) => .pair a b
  | preceded first pattern => Rule.preceded first.rule pattern.rule
  | terminated pattern last => Rule.terminated pattern.rule last.rule
  | delimited opening pattern closing => Rule.delimited opening.rule pattern.rule closing.rule
  | separated sep element => (Rule.separated sep.rule element.rule).map .list
  | many0 pattern => (Rule.many0 pattern.rule).map .list
  | opt pattern => (Rule.opt pattern.rule).map .option
  | allConsuming pattern => Rule.allConsuming pattern.rule
  | deferred pattern => fun i => pattern.rule i
  | label pattern what code => Rule.label pattern.rule what code
  | unimplemented trigger feature => Rule.unimplemented trigger.rule feature
  | name => Rule.map Grammar.name .name
  | foreign message => Rule.foreign message
  | empty => Rule.succeed .empty

def rules : List Pattern → List (Rule Value)
  | [] => []
  | p :: ps => p.rule :: rules ps

end

end Pattern

end LetStack.Grammar
