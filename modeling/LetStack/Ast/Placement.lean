import LetStack.Ast.Outline

/-!
Where the parts of a module lie: no span is empty, every part lies inside what it is a part of, and
the module covers exactly its nodes. `misplaced` gives the first part that does not, in words.
-/

namespace LetStack.Ast

def boundsText (s : Span) : Bytes := Bytes.ofWord s.start ++ ".." ++ Bytes.ofWord s.stop

/-- What is wrong with a span as a part of another. -/
def spanFault? (what : Bytes) (s parent : Span) : Option Bytes :=
  if s.stop ≤ s.start then some (what ++ " span is empty: " ++ boundsText s)
  else if s.start < parent.start ∨ parent.stop < s.stop then
    some (what ++ " span " ++ boundsText s ++ " is outside " ++ boundsText parent)
  else none

/-- The first fault that a list of checks finds. -/
def firstFault {α : Type} (check : α → Except Defect (Option Bytes)) : List α → Except Defect (Option Bytes)
  | [] => .ok none
  | a :: rest => do
    match ← check a with
    | some fault => return some fault
    | none => firstFault check rest

namespace Builder

/-- The first fault in an expression nested less than `depth` deep. -/
def exprFault (b : Builder) : Nat → Span → ExprId → Except Defect (Option Bytes)
  | 0, _, _ => .error .cyclic
  | depth + 1, parent, id =>
    match b.expr? id with
    | none => .ok (some ("nil expression for id=" ++ Bytes.ofNat id))
    | some e =>
      match spanFault? ("expression " ++ e.kind.exprName) e.span parent with
      | some fault => .ok (some fault)
      | none =>
        match e.kind with
        | .known .tuple => do
          firstFault (b.exprFault depth e.span) (← payload b.tuples e)
        | .known .operator => do
          let data ← payload b.operators e
          let operands := if data.op.isUnary then [data.right] else [data.left, data.right]
          firstFault (b.exprFault depth e.span) operands
        | .known .path => do
          firstFault (fun n : NameEntry => .ok (spanFault? "path segment" n.span e.span)) (← payload b.paths e)
        | _ => .ok none

def nodeFault (b : Builder) (parent : Span) (id : NodeId) : Except Defect (Option Bytes) :=
  match b.node? id with
  | none => .ok (some ("nil node for id=" ++ Bytes.ofNat id))
  | some n =>
    match spanFault? "node" n.span parent with
    | some fault => .ok (some fault)
    | none =>
      if n.kind = .known .statement then
        match b.stmt? n.stmt with
        | none => .ok (some ("nil statement for id=" ++ Bytes.ofNat n.stmt))
        | some s =>
          match spanFault? "statement" s.span n.span with
          | some fault => .ok (some fault)
          | none => b.exprFault b.depthBound s.span s.expr
      else .ok none

/-- The first fault in the placement of a module's parts in its source. -/
def misplaced (b : Builder) (id : ModuleId) (src : Bytes) : Except Defect (Option Bytes) :=
  match b.module? id with
  | none => .ok (some ("module " ++ Bytes.ofNat id ++ " not found"))
  | some m =>
    if m.nodes = [] then .ok none
    else
      match spanFault? "module" m.span { stop := UInt32.ofNat src.length } with
      | some fault => .ok (some fault)
      | none => do
        match ← firstFault (b.nodeFault m.span) m.nodes with
        | some fault => return some fault
        | none =>
          let union := Span.joinAll ((m.nodes.filterMap b.node?).map NodeEntry.span)
          if union.start ≠ m.span.start ∨ union.stop ≠ m.span.stop then
            return some ("module span " ++ boundsText m.span ++ " is not the union of its nodes " ++
              boundsText union)
          else return none

end Builder

end LetStack.Ast
