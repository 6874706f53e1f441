import LetStack.Proofs.Lower.Isolation

/-!
A strict walk ends at the first node with an unsupported feature, once its fault is reported, and otherwise comes to
what the walk that is not strict comes to over the nodes up to there (`strict_walk_is_prefix`).
-/

namespace LetStack.Lower
open Ast

/-- Whether a node has the fault that it uses an unsupported feature. -/
def isUnsupported (report : Option Fault) : Bool := report.any (·.kind = .unimplemented)

/-- How a strict walk ends where one that is not strict reports these faults. -/
def strictEnding : List (Option Fault) → Ending
  | [] => .finished
  | none :: reports => strictEnding reports
  | some f :: reports => if f.kind = .unimplemented then .aborted f else strictEnding reports

theorem isUnsupported_some {f : Fault} : isUnsupported (some f) = true ↔ f.kind = .unimplemented := by
  simp [isUnsupported]

theorem findIdx_stops {f : Fault} (h : f.kind = .unimplemented) (reports : List (Option Fault)) :
    (some f :: reports).findIdx isUnsupported = 0 := by
  rw [List.findIdx_cons, isUnsupported_some.2 h]
  rfl

theorem findIdx_goesOn {report : Option Fault} (h : isUnsupported report = false)
    (reports : List (Option Fault)) :
    (report :: reports).findIdx isUnsupported = reports.findIdx isUnsupported + 1 := by
  rw [List.findIdx_cons, h]
  rfl

theorem strictEnding_cases (reports : List (Option Fault)) :
    (strictEnding reports = .finished ∧ ∀ f, some f ∈ reports → f.kind ≠ .unimplemented) ∨
      ∃ f, strictEnding reports = .aborted f ∧ f.kind = .unimplemented ∧
        reports[reports.findIdx isUnsupported]? = some (some f) := by
  induction reports with
  | nil => exact .inl ⟨rfl, nofun⟩
  | cons report reports ih =>
    cases report with
    | none =>
      rw [strictEnding, findIdx_goesOn rfl]
      rcases ih with ⟨finished, supported⟩ | ⟨f, stopped, kind, at_⟩
      · refine .inl ⟨finished, fun f hf => ?_⟩
        cases hf with
        | tail _ hf => exact supported f hf
      · exact .inr ⟨f, stopped, kind, at_⟩
    | some f =>
      rw [strictEnding]
      by_cases stops : f.kind = .unimplemented
      · rw [if_pos stops, findIdx_stops stops]
        exact .inr ⟨f, rfl, stops, rfl⟩
      · rw [if_neg stops, findIdx_goesOn (Bool.eq_false_iff.2 (mt isUnsupported_some.1 stops))]
        rcases ih with ⟨finished, supported⟩ | ⟨g, stopped, kind, at_⟩
        · refine .inl ⟨finished, fun g hg => ?_⟩
          cases hg with
          | head => exact stops
          | tail _ hg => exact supported g hg
        · exact .inr ⟨g, stopped, kind, at_⟩

theorem walkNodes_withNodes (opts : Options) (b : Builder) (id : ModuleId) (nodes : List NodeId) (c : Context)
    (ids : List NodeId) : walkNodes opts (b.withNodes id nodes) c ids = walkNodes opts b c ids := by
  induction ids generalizing c with
  | nil => rfl
  | cons node ids ih =>
    rw [walkNodes, walkNodes, lowerNode_withNodes]
    simp only [ih]

theorem Walked.strict {file : FileId} {b : Builder} {c c' : Context} {ids : List NodeId}
    {reports : List (Option Fault)} (h : Walked { file } b c ids reports c') :
    ∃ cut, Walked { file } b c (ids.take (reports.findIdx isUnsupported + 1))
        (reports.take (reports.findIdx isUnsupported + 1)) cut ∧
      walkNodes { strict := true, file } b c ids =
        { context := cut, reports := reports.take (reports.findIdx isUnsupported + 1)
          ending := strictEnding reports } := by
  induction h with
  | @nil c => exact ⟨c, .nil, rfl⟩
  | done out _ ih =>
    obtain ⟨cut, run, walk⟩ := ih
    rw [findIdx_goesOn rfl]
    refine ⟨cut, .done out run, ?_⟩
    rw [walkNodes]
    simp only [out, walk]
    rfl
  | @fault c c' id ids reports f out _ ih =>
    by_cases stops : f.kind = .unimplemented
    · -- the node that stops the walk is the last of the part, with its fault reported
      rw [findIdx_stops stops]
      refine ⟨_, .fault out .nil, ?_⟩
      rw [walkNodes]
      simp only [out, stops, and_self, if_true, strictEnding]
      rfl
    · rw [findIdx_goesOn (Bool.eq_false_iff.2 (mt isUnsupported_some.1 stops))]
      obtain ⟨cut, run, walk⟩ := ih
      refine ⟨cut, .fault out run, ?_⟩
      have walk : walkNodes { strict := true, file } b
          ((c.discard (lowerNode b c.scope id)).report { strict := true, file } f.diagnostic) ids = _ := walk
      rw [walkNodes]
      simp only [out, stops, and_false, if_false, strictEnding, walk]
      rfl

/-- Where the walk that is not strict meets no broken tree, let `k` be the first of its nodes that uses an
unsupported feature, or behind all nodes if there is none. The strict walk ends early exactly where there
is such a node, with the fault of that node, whatever other faults come before. It leaves the program, the
diagnostics and the names that the walk which is not strict leaves for the module cut behind `k`. -/
theorem strict_walk_is_prefix {file : FileId} {b : Builder} {c : Context} {id : ModuleId} {m : ModuleEntry}
    {walk : Walk} (found : b.module? id = some m) (hwalk : walkModule { file } b c id = walk)
    (finished : walk.ending = .finished) :
    let k := walk.reports.findIdx isUnsupported
    let strict := walkModule { strict := true, file } b c id
    let cut := walkModule { file } (b.withNodes id (m.nodes.take (k + 1))) c id
    walk.reports.length = m.nodes.length ∧
    cut.ending = .finished ∧ strict.context = cut.context ∧ strict.reports = cut.reports ∧
    strict.reports = walk.reports.take (k + 1) ∧
    ((strict.ending = .finished ∧ ∀ f, some f ∈ walk.reports → f.kind ≠ .unimplemented) ∨
      ∃ f, strict.ending = .aborted f ∧ f.kind = .unimplemented ∧ walk.reports[k]? = some (some f)) := by
  have run : Walked { file } b c m.nodes walk.reports walk.context := by
    rw [walkModule_eq found] at hwalk
    subst hwalk
    exact walked_of_finished finished
  obtain ⟨part, before, stopped⟩ := run.strict
  intro k strict cut
  have strict_eq : strict =
      { context := part, reports := walk.reports.take (k + 1), ending := strictEnding walk.reports } := by
    show walkModule { strict := true, file } b c id = _
    rw [walkModule_eq found, stopped]
  have cut_eq : cut = { context := part, reports := walk.reports.take (k + 1), ending := .finished } := by
    show walkModule { file } (b.withNodes id (m.nodes.take (k + 1))) c id = _
    rw [walkModule_eq (Builder.module?_withNodes found _)]
    rw [walkNodes_withNodes]
    exact before.walkNodes_eq rfl
  rw [strict_eq, cut_eq]
  exact ⟨run.length_eq, rfl, rfl, rfl, rfl, strictEnding_cases walk.reports⟩

/-- `_; a.b; ();`, where the first statement is wrong and the second uses a path. -/
private def wrongThenPath : Except Grammar.Failure ModuleId × Builder :=
  Grammar.buildModule {}
    [{ kind := .placeholder }, { kind := .semicolon }, { kind := .ident, text := [0x61] }, { kind := .dot },
     { kind := .ident, text := [0x62] }, { kind := .semicolon }, { kind := .lParen }, { kind := .rParen },
     { kind := .semicolon }]

theorem wrong_then_path_stops_at_path :
    (walkModule {} wrongThenPath.2 {} 1).ending = .finished ∧
    (walkModule {} wrongThenPath.2 {} 1).reports.length = 3 ∧
    (walkModule { strict := true } wrongThenPath.2 {} 1).reports.length = 2 ∧
    (walkModule { strict := true } wrongThenPath.2 {} 1).context =
      (walkModule {} (wrongThenPath.2.withNodes 1 [1, 2]) {} 1).context ∧
    ∃ f, (walkModule { strict := true } wrongThenPath.2 {} 1).ending = .aborted f := by
  have found : wrongThenPath.2.module? 1 = some { span := {}, nodes := [1, 2, 3] } := by decide +kernel
  have first : (walkModule {} wrongThenPath.2 {} 1).reports.findIdx isUnsupported = 1 := by decide +kernel
  have finished : (walkModule {} wrongThenPath.2 {} 1).ending = .finished := by decide +kernel
  obtain ⟨length, _, context, _, reports, ending⟩ := strict_walk_is_prefix found rfl finished
  rw [first] at context reports
  refine ⟨finished, length, by rw [reports, List.length_take, length]; rfl, context, ?_⟩
  rcases ending with ⟨ended, _⟩ | ⟨f, stopped, _⟩
  · exact absurd ended (by decide +kernel)
  · exact ⟨f, stopped⟩

end LetStack.Lower
