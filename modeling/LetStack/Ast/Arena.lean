/-!
An arena numbers the values put into it from 1 on; 0 is the number of nothing.
-/

namespace LetStack.Ast

structure Arena (α : Type) where
  items : Array α := #[]
  deriving Repr, Inhabited

namespace Arena

/-- Puts a value in and gives its number. -/
def alloc {α : Type} (a : Arena α) (x : α) : Nat × Arena α := (a.items.size + 1, { items := a.items.push x })

def get? {α : Type} (a : Arena α) : Nat → Option α
  | 0 => none
  | n + 1 => a.items[n]?

/-- Changes the value with a number; nothing happens for a number of no value. -/
def modify {α : Type} (a : Arena α) (id : Nat) (f : α → α) : Arena α :=
  match id with
  | 0 => a
  | n + 1 => { items := a.items.modify n f }

def size {α : Type} (a : Arena α) : Nat := a.items.size

end Arena

end LetStack.Ast
