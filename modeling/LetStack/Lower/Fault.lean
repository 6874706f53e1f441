import LetStack.Ast.Outline
import LetStack.Machine.Program
import LetStack.Diagnostic.Bag

/-!
What lowering a piece of a tree yields: the code emitted so far, and whether it was completed, met a
fault that is reported, or ran into a broken tree. Pieces follow each other only after completion.
-/

namespace LetStack.Lower
open Ast Machine

inductive FaultKind where
  /-- Something is wrong with the compiled source. -/
  | user
  /-- The source uses what cannot be lowered yet. -/
  | unimplemented
  /-- The tree is malformed. -/
  | internal
  deriving DecidableEq, Repr, Inhabited

def FaultKind.label : FaultKind → String
  | user => "error"
  | unimplemented => "unimplemented"
  | internal => "internal error"

structure Fault where
  kind : FaultKind
  code : Code
  span : Span
  message : Bytes
  deriving DecidableEq, Repr, Inhabited

namespace Fault

def user (code : Code) (span : Span) (message : Bytes) : Fault := ⟨.user, code, span, message⟩

def unimplemented (span : Span) (feature : Bytes) : Fault :=
  ⟨.unimplemented, .unsupportedFeature, span, feature ++ " is not implemented now"⟩

def internal (span : Span) (message : Bytes) : Fault := ⟨.internal, .internalError, span, message⟩

def diagnostic (f : Fault) : Diagnostic := .error f.code f.span f.message

def render (f : Fault) : Bytes := f.code.id ++ ": " ++ f.message

end Fault

inductive Outcome where
  | done
  | fault (f : Fault)
  | broken (d : Defect)
  deriving DecidableEq, Repr, Inhabited

structure Lowered where
  code : List Instr := []
  outcome : Outcome := .done
  deriving Repr, Inhabited

namespace Lowered

def fault (f : Fault) : Lowered := { outcome := .fault f }

def broken (d : Defect) : Lowered := { outcome := .broken d }

/-- One instruction for the expression or statement at a place. -/
def emit (i : Instr) (span : Span) : Lowered := { code := [{ i with line := span.line }] }

/-- The second piece behind the first, unless the first stopped. -/
def andThen (a b : Lowered) : Lowered :=
  match a.outcome with
  | .done => { code := a.code ++ b.code, outcome := b.outcome }
  | _ => a

/-- Pieces one behind the other, up to the first that stops. -/
def all : List Lowered → Lowered
  | [] => {}
  | a :: rest => a.andThen (all rest)

/-- What follows from data that may be broken. -/
def ofData {α : Type} (data : Except Defect α) (f : α → Lowered) : Lowered :=
  match data with
  | .ok a => f a
  | .error d => broken d

end Lowered

end LetStack.Lower
