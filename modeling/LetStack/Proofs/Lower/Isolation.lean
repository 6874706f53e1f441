import LetStack.Grammar.Building
import LetStack.Lower.Module
import LetStack.Proofs.Ast.Storage
import LetStack.Proofs.Diagnostic.Bag

/-!
`walkModule` lowers every node on its own. `Walked` is the run of `walkNodes`, one step a node: `Context.commit` takes
over the code and the name of a node, and `Context.failed` sends the fault of a failing one into the bag and changes
nothing else. So a walk without the failing nodes comes to the same program and scope
(`failing_nodes_leave_no_trace`). A full bag drops faults (`full_bag_drops_second_error`).
-/

namespace LetStack

/-! ## Modules with other nodes -/

namespace Ast

/-- The builder with other nodes in a module. -/
def Builder.withNodes (b : Builder) (id : ModuleId) (nodes : List NodeId) : Builder :=
  { b with modules := b.modules.modify id fun m => { m with nodes } }

theorem Builder.module?_withNodes {b : Builder} {id : ModuleId} {m : ModuleEntry}
    (h : b.module? id = some m) (nodes : List NodeId) :
    (b.withNodes id nodes).module? id = some { m with nodes } :=
  Arena.get?_modify_self h _

end Ast

namespace Lower
open Ast Machine

/-- The diagnostic that a fault leaves, in the file of the options. -/
def Fault.reported (opts : Options) (f : Fault) : Diagnostic := f.diagnostic.inFile opts.file

/-- The diagnostics of the nodes that failed. -/
def diagnostics (opts : Options) (reports : List (Option Fault)) : List Diagnostic :=
  reports.filterMap (Option.map (Fault.reported opts))

/-! ## The run of a walk -/

namespace Context

/-- What a node that failed leaves: the same code and names, and one diagnostic more. -/
def failed (c : Context) (opts : Options) (s : LoweredStmt) (f : Fault) : Context :=
  (c.discard s).report opts f.diagnostic

variable (c : Context) (opts : Options) (s : LoweredStmt) (f : Fault)

theorem failed_instrs : (c.failed opts s f).program.instrs = c.program.instrs := by
  simp [failed, report, discard, Program.truncate, Program.append, Program.length]

theorem failed_scope : (c.failed opts s f).scope = c.scope := rfl

theorem failed_bag : (c.failed opts s f).bag = c.bag.add (f.reported opts) := rfl

theorem commit_bag : (c.commit s).bag = c.bag := rfl

theorem commit_instrs : (c.commit s).program.instrs = c.program.instrs ++ s.lowered.code := rfl

end Context

/-- Nodes lowered one after another from a context to another, each with its fault if it has one. -/
inductive Walked (opts : Options) (b : Builder) :
    Context → List NodeId → List (Option Fault) → Context → Prop
  | nil {c : Context} : Walked opts b c [] [] c
  | done {c c' : Context} {id : NodeId} {ids : List NodeId} {reports : List (Option Fault)} :
      (lowerNode b c.scope id).lowered.outcome = .done →
      Walked opts b (c.commit (lowerNode b c.scope id)) ids reports c' →
      Walked opts b c (id :: ids) (none :: reports) c'
  | fault {c c' : Context} {id : NodeId} {ids : List NodeId} {reports : List (Option Fault)} {f : Fault} :
      (lowerNode b c.scope id).lowered.outcome = .fault f →
      Walked opts b (c.failed opts (lowerNode b c.scope id) f) ids reports c' →
      Walked opts b c (id :: ids) (some f :: reports) c'

variable {opts : Options} {b : Builder} {c c' : Context} {ids : List NodeId}
  {reports : List (Option Fault)}

theorem walkModule_eq {id : ModuleId} {m : ModuleEntry} (found : b.module? id = some m) :
    walkModule opts b c id = walkNodes opts b c m.nodes := by
  rw [walkModule, found]

/-- A walk that meets no broken tree is a run over the first of its nodes: over all, unless it is strict
and stops. -/
theorem walkNodes_cases (unbroken : ∀ d, (walkNodes opts b c ids).ending ≠ .broken d) :
    ∃ walked rest, ids = walked ++ rest ∧
      Walked opts b c walked (walkNodes opts b c ids).reports (walkNodes opts b c ids).context ∧
      (((walkNodes opts b c ids).ending = .finished ∧ rest = []) ∨
        ∃ f, (walkNodes opts b c ids).ending = .aborted f ∧ f.kind = .unimplemented ∧
          opts.strict = true) := by
  induction ids generalizing c with
  | nil => exact ⟨[], [], rfl, .nil, .inl ⟨rfl, rfl⟩⟩
  | cons id ids ih =>
    rw [walkNodes] at unbroken ⊢
    cases out : (lowerNode b c.scope id).lowered.outcome with
    | done =>
      simp only [out] at unbroken
      obtain ⟨walked, rest, rfl, run, ending⟩ := ih unbroken
      exact ⟨id :: walked, rest, rfl, .done out run, ending⟩
    | fault f =>
      simp only [out] at unbroken
      by_cases stops : opts.strict ∧ f.kind = .unimplemented
      · -- the node that stops the walk still counts as walked, for its fault was reported
        simp only [if_pos stops]
        exact ⟨[id], ids, rfl, .fault out .nil, .inr ⟨f, rfl, stops.2, stops.1⟩⟩
      · simp only [if_neg stops] at unbroken ⊢
        obtain ⟨walked, rest, rfl, run, ending⟩ := ih unbroken
        exact ⟨id :: walked, rest, rfl, .fault out run, ending⟩
    | broken d =>
      simp only [out] at unbroken
      exact absurd rfl (unbroken d)

theorem walked_of_finished (h : (walkNodes opts b c ids).ending = .finished) :
    Walked opts b c ids (walkNodes opts b c ids).reports (walkNodes opts b c ids).context := by
  have unbroken : ∀ d, (walkNodes opts b c ids).ending ≠ .broken d := by simp [h]
  obtain ⟨walked, rest, eq, run, ⟨_, rfl⟩ | ⟨f, aborted, _⟩⟩ := walkNodes_cases unbroken
  · rw [List.append_nil] at eq
    rwa [← eq] at run
  · rw [h] at aborted
    cases aborted

theorem walkNodes_not_broken (sound : ∀ id ∈ ids, ∀ scope d, (lowerNode b scope id).lowered.outcome ≠ .broken d)
    (d : Defect) : (walkNodes opts b c ids).ending ≠ .broken d := by
  induction ids generalizing c with
  | nil => nofun
  | cons id ids ih =>
    have ih := fun c => @ih c fun id hid => sound id (.tail _ hid)
    rw [walkNodes]
    cases out : (lowerNode b c.scope id).lowered.outcome with
    | done => exact ih _
    | fault f =>
      by_cases stops : opts.strict ∧ f.kind = .unimplemented
      · simp [stops]
      · simp only [if_neg stops]
        exact ih _
    | broken d => exact absurd out (sound id (.head _) c.scope d)

/-- Unless it is strict, a walk is the run over all its nodes. -/
theorem Walked.walkNodes_eq (lenient : opts.strict = false) (h : Walked opts b c ids reports c') :
    walkNodes opts b c ids = { context := c', reports, ending := .finished } := by
  induction h with
  | nil => rfl
  | done out _ ih =>
    rw [walkNodes]
    simp only [out, ih]
  | fault out _ ih =>
    rw [Context.failed] at ih
    rw [walkNodes]
    simp [out, ih, lenient]

theorem Walked.length_eq (h : Walked opts b c ids reports c') : reports.length = ids.length := by
  induction h with
  | nil => rfl
  | done _ _ ih => rw [List.length_cons, List.length_cons, ih]
  | fault _ _ ih => rw [List.length_cons, List.length_cons, ih]

theorem Walked.split {pre post : List NodeId} (h : Walked opts b c (pre ++ post) reports c') :
    ∃ first second mid, reports = first ++ second ∧ Walked opts b c pre first mid ∧
      Walked opts b mid post second c' := by
  induction pre generalizing c reports with
  | nil => exact ⟨[], reports, c, rfl, .nil, h⟩
  | cons id pre ih =>
    cases h with
    | done out rest =>
      obtain ⟨first, second, mid, rfl, before, after⟩ := ih rest
      exact ⟨none :: first, second, mid, rfl, .done out before, after⟩
    | fault out rest =>
      obtain ⟨first, second, mid, rfl, before, after⟩ := ih rest
      exact ⟨_ :: first, second, mid, rfl, .fault out before, after⟩

theorem Walked.bag_eq (h : Walked opts b c ids reports c') :
    c'.bag = c.bag.addAll (diagnostics opts reports) := by
  induction h with
  | nil => rfl
  | done _ _ ih => rw [ih, Context.commit_bag]; rfl
  | fault _ _ ih => rw [ih, Context.failed_bag]; rfl

theorem Walked.fault_of_mem (h : Walked opts b c ids reports c') {f : Fault} (hf : some f ∈ reports) :
    ∃ id ∈ ids, ∃ scope, (lowerNode b scope id).lowered.outcome = .fault f := by
  induction h with
  | nil => cases hf
  | done _ _ ih =>
    cases hf with
    | tail _ hf =>
      obtain ⟨id, hid, scope, out⟩ := ih hf
      exact ⟨id, .tail _ hid, scope, out⟩
  | fault out _ ih =>
    cases hf with
    | head => exact ⟨_, .head _, _, out⟩
    | tail _ hf =>
      obtain ⟨id, hid, scope, out⟩ := ih hf
      exact ⟨id, .tail _ hid, scope, out⟩

/-! ## What a walk does at a node -/

theorem walkNodes_limit (opts : Options) (b : Builder) (c : Context) (ids : List NodeId) :
    (walkNodes opts b c ids).context.bag.limit = c.bag.limit := by
  induction ids generalizing c with
  | nil => rfl
  | cons id ids ih =>
    rw [walkNodes]
    cases out : (lowerNode b c.scope id).lowered.outcome with
    | done => exact ih _
    | broken d => rfl
    | fault f =>
      simp only
      split
      · exact Bag.limit_add ..
      · exact (ih _).trans (Bag.limit_add ..)

/-- At a node that a walk reaches, it takes over the code and the name of the node, or it reports the
fault of the node and nothing else. -/
theorem walkNodes_reached {pre post : List NodeId} {node : NodeId}
    (reached : pre.length < (walkNodes opts b c (pre ++ node :: post)).reports.length) :
    let before := (walkNodes opts b c pre).context
    let after := (walkNodes opts b c (pre ++ [node])).context
    let report := (walkNodes opts b c (pre ++ node :: post)).reports[pre.length]?
    let s := lowerNode b before.scope node
    (∃ f, report = some (some f) ∧ s.lowered.outcome = .fault f ∧ after = before.failed opts s f) ∨
      (report = some none ∧ s.lowered.outcome = .done ∧ after = before.commit s) := by
  induction pre generalizing c with
  | nil =>
    rw [List.nil_append, walkNodes] at reached
    simp only [List.nil_append, walkNodes]
    cases out : (lowerNode b c.scope node).lowered.outcome with
    | done => exact .inr ⟨rfl, rfl, rfl⟩
    | broken d =>
      simp only [out] at reached
      cases reached
    | fault f =>
      refine .inl ⟨f, ?_, rfl, ?_⟩
      · simp only
        split <;> rfl
      · simp only
        split <;> rfl
  | cons id pre ih =>
    rw [List.cons_append, walkNodes] at reached
    simp only [List.cons_append, walkNodes]
    cases out : (lowerNode b c.scope id).lowered.outcome with
    | done =>
      simp only [out] at reached
      exact ih (Nat.lt_of_succ_lt_succ reached)
    | broken d =>
      simp only [out] at reached
      cases reached
    | fault f =>
      simp only [out] at reached
      split at reached
      · -- a walk that stops at an earlier node does not come to this one
        exact absurd (Nat.lt_of_succ_lt_succ reached) (Nat.not_lt_zero _)
      · next goesOn =>
        simp only [if_neg goesOn]
        exact ih (Nat.lt_of_succ_lt_succ reached)

theorem walkNodes_step {pre post : List NodeId} {node : NodeId}
    (reached : pre.length < (walkNodes opts b c (pre ++ node :: post)).reports.length) :
    let before := (walkNodes opts b c pre).context
    let after := (walkNodes opts b c (pre ++ [node])).context
    let report := (walkNodes opts b c (pre ++ node :: post)).reports[pre.length]?
    let s := lowerNode b before.scope node
    (∃ f, report = some (some f) ∧ s.lowered.outcome = .fault f ∧
        after.program.instrs = before.program.instrs ∧ after.scope = before.scope ∧
        after.bag = before.bag.add (f.reported opts)) ∨
      (report = some none ∧ s.lowered.outcome = .done ∧
        after.program.instrs = before.program.instrs ++ s.lowered.code ∧ after.bag = before.bag) := by
  rcases walkNodes_reached reached with ⟨f, report, out, after⟩ | ⟨report, out, after⟩
  · refine .inl ⟨f, report, out, ?_⟩
    rw [after]
    exact ⟨Context.failed_instrs .., rfl, rfl⟩
  · refine .inr ⟨report, out, ?_⟩
    rw [after]
    exact ⟨rfl, rfl⟩

/-! ## Without the nodes that fail -/

/-- What has no fault, of nodes or of the statements in them. -/
def succeeding {α : Type} : List α → List (Option Fault) → List α
  | x :: xs, none :: reports => x :: succeeding xs reports
  | _ :: xs, some _ :: reports => succeeding xs reports
  | _, _ => []

theorem lowerExpr_withNodes (b : Builder) (id : ModuleId) (nodes : List NodeId) (scope : Scope)
    (depth : Nat) : lowerExpr (b.withNodes id nodes) scope depth = lowerExpr b scope depth := by
  induction depth with
  | zero =>
    funext e
    rw [lowerExpr, lowerExpr]
  | succ depth ih =>
    funext e
    rw [lowerExpr, lowerExpr, ih]
    rfl

theorem lowerNode_withNodes (b : Builder) (id : ModuleId) (nodes : List NodeId) (scope : Scope)
    (node : NodeId) : lowerNode (b.withNodes id nodes) scope node = lowerNode b scope node := by
  unfold lowerNode lowerStmt
  rw [lowerExpr_withNodes]
  rfl

/-- A run over the nodes that do not fail, from a context with the same code and names, ends with the
same code and names and reports nothing. -/
theorem Walked.of_succeeding (h : Walked opts b c ids reports c') {b₂ : Builder} {c₂ : Context}
    (hb : ∀ scope id, lowerNode b₂ scope id = lowerNode b scope id)
    (instrs : c₂.program.instrs = c.program.instrs) (scope : c₂.scope = c.scope) :
    ∃ c₂', Walked opts b₂ c₂ (succeeding ids reports) ((succeeding ids reports).map fun _ => none) c₂' ∧
      c₂'.program.instrs = c'.program.instrs ∧ c₂'.scope = c'.scope ∧ c₂'.bag = c₂.bag := by
  induction h generalizing c₂ with
  | nil => exact ⟨c₂, .nil, instrs, scope, rfl⟩
  | @done c c' id ids reports out _ ih =>
    have same : lowerNode b₂ c₂.scope id = lowerNode b c.scope id := by rw [hb, scope]
    obtain ⟨c₂', walked, instrs', scope', bag'⟩ := @ih (c₂.commit (lowerNode b c.scope id))
      (by rw [Context.commit_instrs, Context.commit_instrs, instrs])
      (by simp only [Context.commit, scope])
    rw [← same] at walked
    exact ⟨c₂', .done (by rw [same, out]) walked, instrs', scope', bag'⟩
  | fault _ _ ih =>
    exact ih (instrs.trans (Context.failed_instrs ..).symm) (scope.trans (Context.failed_scope ..).symm)

theorem Walked.onward {pre post : List NodeId} (lenient : opts.strict = false)
    (h : Walked opts b c (pre ++ post) reports c') :
    (walkNodes opts b (walkNodes opts b c pre).context post).context = c' := by
  obtain ⟨first, second, mid, rfl, before, after⟩ := h.split
  rw [before.walkNodes_eq lenient, after.walkNodes_eq lenient]

/-- A walk that is not strict and meets no broken tree lowers every node. Around a node that fails the code and the
names are the same, and its error goes into the bag: it is kept behind the others if there is room, and counted as
dropped if not. Around a node that does not fail the bag is the same. Walked without the nodes that fail, the module
comes to the same code and the same names, and nothing goes into the bag. -/
theorem failing_nodes_leave_no_trace {id : ModuleId} {m : ModuleEntry} {walk : Walk}
    (lenient : opts.strict = false) (hm : b.module? id = some m)
    (hwalk : walkModule opts b c id = walk) (finished : walk.ending = .finished) :
    walk.reports.length = m.nodes.length ∧
    (∀ pre node post, m.nodes = pre ++ node :: post →
      let before := (walkNodes opts b c pre).context
      let after := (walkNodes opts b c (pre ++ [node])).context
      (walkNodes opts b after post).context = walk.context ∧
      ((∃ f, walk.reports[pre.length]? = some (some f) ∧
          after.program.instrs = before.program.instrs ∧ after.scope = before.scope ∧
          (f.reported opts).severity = .error ∧
          (Bag.HasRoom before.bag.limit before.bag.items.length →
            after.bag = { before.bag with items := before.bag.items ++ [f.reported opts] }) ∧
          (¬Bag.HasRoom before.bag.limit before.bag.items.length →
            after.bag = { before.bag with dropped := before.bag.dropped + 1 })) ∨
        (walk.reports[pre.length]? = some none ∧ after.bag = before.bag))) ∧
    walk.context.bag = c.bag.addAll (diagnostics opts walk.reports) ∧
    (c.bag.limit ≤ 0 →
      walk.context.bag = { c.bag with items := c.bag.items ++ diagnostics opts walk.reports }) ∧
    ∃ again, walkModule opts (b.withNodes id (succeeding m.nodes walk.reports)) c id = again ∧
      again.ending = .finished ∧ again.context.program.instrs = walk.context.program.instrs ∧
      again.context.scope = walk.context.scope ∧ again.context.bag = c.bag ∧
      ∀ r ∈ again.reports, r = none := by
  have run : Walked opts b c m.nodes walk.reports walk.context := by
    rw [walkModule_eq hm] at hwalk
    subst hwalk
    exact walked_of_finished finished
  refine ⟨run.length_eq, ?_, run.bag_eq, ?_, ?_⟩
  · intro pre node post hnodes
    rw [hnodes] at run
    have reached : pre.length < (walkNodes opts b c (pre ++ node :: post)).reports.length := by
      rw [run.walkNodes_eq lenient, run.length_eq]
      simp
    have step := walkNodes_step reached
    rw [run.walkNodes_eq lenient] at step
    have onward := @Walked.onward _ _ _ _ _ (pre ++ [node]) post lenient (by simpa using run)
    rcases step with ⟨f, report, _, instrs, scope, bag⟩ | ⟨report, _, _, bag⟩
    · exact ⟨onward, .inl ⟨f, report, instrs, scope, rfl, fun room => bag.trans (Bag.add_of_room room _),
        fun full => bag.trans (Bag.add_of_full full _)⟩⟩
    · exact ⟨onward, .inr ⟨report, bag⟩⟩
  · intro unlimited
    rw [run.bag_eq, Bag.addAll_of_unlimited unlimited]
  · obtain ⟨c₂, walked, instrs, scope, bag⟩ :=
      run.of_succeeding (lowerNode_withNodes b id (succeeding m.nodes walk.reports)) rfl rfl
    refine ⟨_, rfl, ?_⟩
    rw [walkModule_eq (Builder.module?_withNodes hm _), walked.walkNodes_eq lenient]
    exact ⟨rfl, instrs, scope, bag, by simp⟩

/-- `(); let _ = ((), _);`, where the second statement fails behind its first part. -/
private def halfFailing : Builder :=
  (Grammar.buildModule {}
    [{ kind := .lParen }, { kind := .rParen }, { kind := .semicolon }, { kind := .kwLet }, { kind := .placeholder },
     { kind := .assign }, { kind := .lParen }, { kind := .lParen }, { kind := .rParen }, { kind := .comma },
     { kind := .placeholder }, { kind := .rParen }, { kind := .semicolon }]).2

theorem half_failing_module_keeps_first :
    (walkModule {} halfFailing {} 1).ending = .finished ∧
    (walkModule {} halfFailing {} 1).reports.map Option.isSome = [false, true] ∧
    (walkModule {} (halfFailing.withNodes 1 [1]) {} 1).context.program.instrs =
      (walkModule {} halfFailing {} 1).context.program.instrs := by
  have found : halfFailing.module? 1 = some { span := {}, nodes := [1, 2] } := by decide +kernel
  have finished : (walkModule {} halfFailing {} 1).ending = .finished := by decide +kernel
  have kept : succeeding [1, 2] (walkModule {} halfFailing {} 1).reports = [1] := by decide +kernel
  obtain ⟨_, _, _, _, again, rfl, _, instrs, _⟩ :=
    @failing_nodes_leave_no_trace {} halfFailing {} 1 _ _ rfl found rfl finished
  rw [kept] at instrs
  exact ⟨finished, by decide +kernel, instrs⟩

/-- `_; _;`, where both statements fail. -/
private def bothFailing : Builder :=
  (Grammar.buildModule {}
    [{ kind := .placeholder }, { kind := .semicolon }, { kind := .placeholder }, { kind := .semicolon }]).2

/-- The error of the second node is not appended to a bag that the error of the first one has filled. -/
theorem full_bag_drops_second_error :
    let walk := walkModule {} bothFailing { bag := .ofLimit 1 } 1
    walk.ending = .finished ∧ walk.reports.map Option.isSome = [true, true] ∧ walk.context.bag.items.length = 1 ∧
      walk.context.bag.dropped = 1 := by
  decide +kernel

end Lower

end LetStack
