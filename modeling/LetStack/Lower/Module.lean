import LetStack.Lower.Expr

/-!
Lowering modules. Every node is lowered on its own: one that fails leaves no code and no name behind,
only a diagnostic, and the next node is tried. In strict mode the first node that uses an unsupported
feature ends the walk.
-/

namespace LetStack.Lower
open Ast Machine

structure Options where
  /-- Stop at the first unsupported feature. -/
  strict : Bool := false
  file : FileId := 0
  deriving Repr, Inhabited

/-- What walks over modules have produced so far. -/
structure Context where
  program : Program := {}
  scope : Scope := []
  bag : Bag := .ofLimit 0
  deriving Repr, Inhabited

/-- A lowered statement with the name it binds. -/
structure LoweredStmt where
  lowered : Lowered
  binds : Option Bytes := none

def lowerStmt (b : Builder) (scope : Scope) (id : StmtId) : LoweredStmt :=
  match b.stmt? id with
  | none => ⟨.fault (.internal .empty ("statement " ++ Bytes.ofNat id ++ " does not exist")), none⟩
  | some s =>
    let value := lowerExpr b scope b.depthBound s.expr
    let pop := Lowered.emit { op := .pop } s.span
    match s.kind with
    | .known .expr => ⟨value.andThen pop, none⟩
    | .known .letIn =>
      if s.name.kind = .known .placeholder then ⟨value.andThen pop, none⟩
      else
        match b.nameText s.name with
        | .error d => ⟨value.andThen (.broken d), none⟩
        | .ok text =>
          let name := Scope.key text
          ⟨value.andThen (.emit { op := .store, str := name } s.span), some name⟩
    | .unknown _ => ⟨.fault (.internal s.span ("unknown statement kind " ++ s.kind.statementName)), none⟩

def lowerNode (b : Builder) (scope : Scope) (id : NodeId) : LoweredStmt :=
  match b.node? id with
  | none => ⟨.fault (.internal .empty ("node " ++ Bytes.ofNat id ++ " does not exist")), none⟩
  | some n =>
    match n.kind with
    | .known .directive => ⟨.fault (.unimplemented n.span "directive"), none⟩
    | .known .statement => lowerStmt b scope n.stmt
    | .unknown _ => ⟨.fault (.internal n.span ("unknown node kind " ++ n.kind.nodeName)), none⟩

namespace Context

/-- Adds a diagnostic, attributed to the file of the options unless it names one. -/
def report (c : Context) (opts : Options) (d : Diagnostic) : Context :=
  { c with bag := c.bag.add (if d.file = 0 then d.inFile opts.file else d) }

/-- Takes over a completed statement. -/
def commit (c : Context) (s : LoweredStmt) : Context :=
  { c with
    program := c.program.append s.lowered.code
    scope := match s.binds with
      | some name => c.scope.bind name
      | none => c.scope }

/-- Drops the code of a statement that failed. -/
def discard (c : Context) (s : LoweredStmt) : Context :=
  { c with program := (c.program.append s.lowered.code).truncate c.program.length }

end Context

inductive Ending where
  | finished
  | aborted (f : Fault)
  | broken (d : Defect)
  | noModule (id : ModuleId)
  deriving DecidableEq, Repr, Inhabited

/-- Why a walk could not go on, in words. -/
def Ending.message? : Ending → Option Bytes
  | finished | broken _ => none
  | aborted f => some f.render
  | noModule id => some ("codegen: internal compiler error: module " ++ Bytes.ofNat id ++ " does not exist")

structure Walk where
  context : Context
  /-- For every node that was lowered, its fault if it had one. -/
  reports : List (Option Fault) := []
  ending : Ending := .finished

def walkNodes (opts : Options) (b : Builder) (c : Context) : List NodeId → Walk
  | [] => { context := c }
  | id :: rest =>
    let s := lowerNode b c.scope id
    match s.lowered.outcome with
    | .done =>
      let walk := walkNodes opts b (c.commit s) rest
      { walk with reports := none :: walk.reports }
    | .fault f =>
      let c := (c.discard s).report opts f.diagnostic
      if opts.strict ∧ f.kind = .unimplemented then
        { context := c, reports := [some f], ending := .aborted f }
      else
        let walk := walkNodes opts b c rest
        { walk with reports := some f :: walk.reports }
    | .broken d => { context := { c with program := c.program.append s.lowered.code }, ending := .broken d }

def walkModule (opts : Options) (b : Builder) (c : Context) (id : ModuleId) : Walk :=
  match b.module? id with
  | none => { context := c, ending := .noModule id }
  | some m => walkNodes opts b c m.nodes

end LetStack.Lower
