import LetStack.Grammar.Input
import LetStack.Diagnostic.Basic

/-!
Why a rule fails. A mismatch lets other alternatives be tried; every other reason ends the parse. A failure from outside
the grammar is taken for the mismatch that it wraps, if it wraps one.
-/

namespace LetStack.Grammar

inductive Reason where
  /-- The rule does not match; what would have matched is listed. -/
  | mismatch (expected : List Bytes)
  /-- The input uses a form that has no grammar yet. -/
  | unimplemented (feature : Bytes)
  /-- The rule matched and left tokens over. -/
  | trailing
  /-- A failure that is none of the grammar's own. It may wrap a mismatch; what that expects is then listed, and all that
  is told about the failure but its message is told about the mismatch. -/
  | foreign (message : Bytes) (wrapped : Option (List Bytes))
  deriving DecidableEq, Repr, Inhabited

/-- The reason as the grammar takes it: that of the mismatch, for a failure that wraps one. -/
def Reason.unwrapped : Reason → Reason
  | foreign _ (some expected) => mismatch expected
  | reason => reason

structure Error where
  reason : Reason
  code : Code
  /-- The index of the token at which the rule failed. -/
  pos : Nat
  span : Span
  /-- What is at that index. -/
  found : Bytes
  deriving DecidableEq, Repr, Inhabited

namespace Error

def here (i : Input) (code : Code) (reason : Reason) : Error :=
  { reason, code, pos := i.pos, span := i.span, found := i.found }

def mismatch (i : Input) (code : Code) (expected : List Bytes) : Error :=
  .here i code (.mismatch expected)

def unwrapped (e : Error) : Error := { e with reason := e.reason.unwrapped }

/-- Whether the failure is a mismatch, or wraps one. -/
def isMismatch (e : Error) : Bool :=
  match e.reason.unwrapped with
  | .mismatch _ => true
  | _ => false

def isUnimplemented (e : Error) : Bool :=
  match e.reason with
  | .unimplemented _ => true
  | _ => false

def expected (e : Error) : List Bytes :=
  match e.reason with
  | .mismatch expected => expected
  | _ => []

def feature (e : Error) : Bytes :=
  match e.reason with
  | .unimplemented feature => feature
  | _ => []

/-- What would have matched, each once and in order: `a`, `a or b`, `a, b or c`. -/
def alternatives (expected : List Bytes) : Bytes :=
  let sorted := (Bytes.sort expected).eraseReps
  match sorted.reverse with
  | [] => []
  | [only] => only
  | last :: others => Bytes.join ", " others.reverse ++ " or " ++ last

def message (e : Error) : Bytes :=
  match e.reason with
  | .mismatch [] => "unexpected " ++ e.found
  | .mismatch expected => "expected " ++ alternatives expected ++ ", found " ++ e.found
  | .unimplemented feature => feature ++ " is not implemented now"
  | .trailing => "unexpected " ++ e.found ++ ", expected end of input"
  | .foreign message _ => message

theorem unwrapped_isMismatch (e : Error) : e.unwrapped.isMismatch = e.isMismatch := by
  unfold isMismatch unwrapped Reason.unwrapped
  rcases e.reason with _ | _ | _ | ⟨_, _ | _⟩ <;> rfl

theorem unwrapped_of_own {e : Error} (own : ∀ message wrapped, e.reason ≠ .foreign message wrapped) :
    e.unwrapped = e := by
  have same : e.reason.unwrapped = e.reason := by
    unfold Reason.unwrapped
    split
    · next message expected foreign => exact absurd foreign (own message (some expected))
    · rfl
  rw [unwrapped, same]

/-- The failure that got further; of two at one position the first, with the expectations of both. -/
def furthest (a b : Error) : Error :=
  if a.pos < b.pos then b
  else if b.pos < a.pos then a
  else { a with reason := .mismatch (a.expected ++ b.expected) }

end Error

/-- Why a whole parse fails, and for tokens left over why the next one could not be used. -/
structure Failure where
  error : Error
  cause : Option Error := none
  deriving DecidableEq, Repr, Inhabited

namespace Failure

def message (f : Failure) : Bytes :=
  match f.cause with
  | some c => f.error.message ++ ": " ++ c.message
  | none => f.error.message

/-- Whether the failure, or its cause, is a mismatch. -/
def isMismatch (f : Failure) : Bool := f.error.isMismatch || f.cause.any Error.isMismatch

/-- Whether the failure, or its cause, is a form without grammar. -/
def isUnimplemented (f : Failure) : Bool := f.error.isUnimplemented || f.cause.any Error.isUnimplemented

/-- The failure as a diagnostic, with a note for its cause. -/
def diagnostic (f : Failure) (file : FileId) : Diagnostic :=
  let d := (Diagnostic.error f.error.code f.error.span f.error.unwrapped.message).inFile file
  match f.cause with
  | some c => d.withNote c.span c.message
  | none => d

end Failure

end LetStack.Grammar
