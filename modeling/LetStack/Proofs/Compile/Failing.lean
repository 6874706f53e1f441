import LetStack.Compile.Cache
import LetStack.Proofs.Compile.Total
import LetStack.Proofs.Diagnostic.Bag

/-!
A file fails if it does not parse or if a statement that `walkModule` reaches is not lowered. `Compilation.hasFailed`
looks for errors in the bag, so it misses a failure exactly where the warnings of the scanner fill the bag, with or
without a cache (`hasFailed_fresh_iff`, `hasFailed_consulting_iff`).
-/

namespace LetStack

namespace Lower
open Ast

/-- What becomes of nodes does not depend on the file and on the code in front of them. -/
theorem reports_walkNodes {opts opts' : Options} (strict : opts.strict = opts'.strict) (b : Builder)
    {c c' : Context} (scope : c.scope = c'.scope) (ids : List NodeId) :
    (walkNodes opts b c ids).reports = (walkNodes opts' b c' ids).reports := by
  induction ids generalizing c c' with
  | nil => rfl
  | cons id ids ih =>
    -- a node sees only the scope, and both walks change it alike
    unfold walkNodes
    rw [← scope, ← strict]
    dsimp only
    cases (lowerNode b c.scope id).lowered.outcome with
    | done =>
      have onward : (c.commit (lowerNode b c.scope id)).scope = (c'.commit (lowerNode b c.scope id)).scope := by
        unfold Context.commit
        rw [scope]
      exact congrArg (none :: ·) (ih onward)
    | fault f =>
      dsimp only
      split
      · rfl
      · exact congrArg (some f :: ·) (ih scope)
    | broken d => rfl

theorem reports_walkModule {opts opts' : Options} (strict : opts.strict = opts'.strict) (b : Builder)
    {c c' : Context} (scope : c.scope = c'.scope) (id : ModuleId) :
    (walkModule opts b c id).reports = (walkModule opts' b c' id).reports := by
  unfold walkModule
  cases b.module? id with
  | none => rfl
  | some m => exact reports_walkNodes strict b scope m.nodes

end Lower

namespace Compilation
open Ast Lower

/-! ## Files that fail -/

/-- A file that is not parsed, or one of whose statements is reached and not lowered. -/
inductive Fails (opts : CompileOptions) (f : SourceFile) : Prop
  | unparsed {failure : Grammar.Failure} : Grammar.parseModule (tokenize f.content) = .error failure → Fails opts f
  | unlowered {statements : List Statement} {fault : Fault} :
      Grammar.parseModule (tokenize f.content) = .ok statements →
      some fault ∈ (walkOf opts f).reports → Fails opts f

/-- How often the scanner warns of unrecognized input. -/
def warningCount (content : Bytes) : Nat := (tokenize content).countP (·.kind == .invalid)

/-- Whether the warnings of the scanner leave room for an error. -/
def HasRoom (opts : CompileOptions) (f : SourceFile) : Prop := Bag.HasRoom opts.limit (warningCount f.content)

variable {f f' : SourceFile} {opts : CompileOptions}

theorem reports_walkOf (opts : CompileOptions) (same : f'.content = f.content) :
    (walkOf opts f').reports = (walkOf opts f).reports := by
  unfold walkOf
  rw [same]
  split
  · rfl
  · exact reports_walkModule (by rfl) _ (by rfl) _

theorem Fails.congr (same : f'.content = f.content) (h : Fails opts f) : Fails opts f' := by
  cases h with
  | unparsed failed => exact .unparsed (same ▸ failed)
  | unlowered parsed reported => exact .unlowered (same ▸ parsed) (reports_walkOf opts same ▸ reported)

/-! ## Errors in the bag -/

/-- The errors of a file: that of the parser, or those of the lowering. -/
def errorsOf (opts : CompileOptions) (f : SourceFile) : List Diagnostic :=
  match Grammar.parseModule (tokenize f.content) with
  | .error failure => [failure.diagnostic f.id]
  | .ok _ => (walkOf opts f).context.bag.items

theorem length_ofTokens (file : FileId) (content : Bytes) :
    (Diagnostic.ofTokens file (tokenize content)).length = warningCount content := by
  rw [Diagnostic.ofTokens, List.length_map, warningCount, List.countP_eq_length_filter]

/-- Everything that is reported about a file, whether the bag has room for it or not. -/
def reportsOf (opts : CompileOptions) (f : SourceFile) : List Diagnostic :=
  Diagnostic.ofTokens f.id (tokenize f.content) ++ errorsOf opts f

theorem fresh_bag (opts : CompileOptions) (f : SourceFile) :
    (fresh opts f).bag = (Bag.ofLimit opts.limit).addAll (reportsOf opts f) := by
  rw [reportsOf, Bag.addAll_append, errorsOf]
  cases parsed : Grammar.parseModule (tokenize f.content) with
  | error failure =>
    rw [fresh_of_error parsed]
    rfl
  | ok statements =>
    obtain ⟨id, b, m, _, _, _, same⟩ := @fresh_of_ok opts f _ parsed
    rw [same]
    rfl

/-- The lowering leaves an error for each statement that it reaches and does not lower. -/
theorem items_walkOf {statements : List Statement}
    (parsed : Grammar.parseModule (tokenize f.content) = .ok statements) :
    (walkOf opts f).context.bag.items = diagnostics (lowering opts f) (walkOf opts f).reports := by
  obtain ⟨id, b, m, _, stored, walk, _⟩ := @fresh_of_ok opts f _ parsed
  obtain ⟨_, _, _, run, _⟩ := walkModule_parsed (lowering opts f) (lowerStart f) stored parsed
  rw [walk, run.bag_eq, Bag.addAll_of_unlimited (Int.le_refl 0)]
  rfl

theorem exists_statement_of_report {statements : List Statement}
    (parsed : Grammar.parseModule (tokenize f.content) = .ok statements) {fault : Fault}
    (reported : some fault ∈ (walkOf opts f).reports) :
    ∃ s ∈ statements, ∃ scope, (s.lower scope).lowered.outcome = .fault fault := by
  obtain ⟨id, b, m, _, stored, walk, _⟩ := @fresh_of_ok opts f _ parsed
  obtain ⟨walked, rest, split, run, _⟩ := walkModule_parsed (lowering opts f) (lowerStart f) stored parsed
  rw [walk] at reported
  obtain ⟨node, hnode, scope, out⟩ := run.fault_of_mem reported
  have lowers := stored.lowers parsed
  rw [split] at lowers
  obtain ⟨s, hs, same⟩ := exists_statement_of_lowers lowers (List.mem_append_left rest hnode)
  rw [same] at out
  exact ⟨s, hs, scope, out⟩

theorem severity_errorsOf {d : Diagnostic} (h : d ∈ errorsOf opts f) : d.severity = .error := by
  unfold errorsOf at h
  split at h
  · cases List.mem_singleton.1 h
    exact (failure_diagnostic _ f.id).1
  · next parsed =>
    rw [items_walkOf parsed] at h
    obtain ⟨report, _, mapped⟩ := List.mem_filterMap.1 h
    obtain ⟨fault, _, rfl⟩ := Option.map_eq_some_iff.1 mapped
    rfl

/-- A file has an error exactly if it fails. -/
theorem errorsOf_ne_nil_iff : errorsOf opts f ≠ [] ↔ Fails opts f := by
  unfold errorsOf
  cases parsed : Grammar.parseModule (tokenize f.content) with
  | error failure => exact ⟨fun _ => .unparsed parsed, fun _ => List.cons_ne_nil _ _⟩
  | ok statements =>
    dsimp only
    rw [items_walkOf parsed]
    constructor
    · intro nonempty
      obtain ⟨d, member⟩ := List.exists_mem_of_ne_nil _ nonempty
      obtain ⟨report, reported, mapped⟩ := List.mem_filterMap.1 member
      obtain ⟨fault, rfl, _⟩ := Option.map_eq_some_iff.1 mapped
      exact .unlowered parsed reported
    · rintro (failed | ⟨parsed', reported⟩)
      · cases parsed.symm.trans failed
      · cases parsed.symm.trans parsed'
        exact List.ne_nil_of_mem (List.mem_filterMap.2 ⟨_, reported, rfl⟩)

/-- A compilation fails exactly if the file fails and the warnings in front leave room for the error. -/
theorem hasFailed_fresh_iff (opts : CompileOptions) (f : SourceFile) :
    (fresh opts f).hasFailed = true ↔ Fails opts f ∧ HasRoom opts f := by
  unfold hasFailed Bag.hasErrors
  rw [fresh_bag, Bag.items_ofLimit, reportsOf, Bag.any_kept_append, errorsOf_ne_nil_iff, length_ofTokens]
  · rfl
  · intro d warning
    obtain ⟨tok, _, rfl⟩ := List.mem_map.1 warning
    rfl
  · intro d error
    rw [severity_errorsOf error]
    rfl

/-! ## Files that cannot be read -/

/-- There is always room for the first diagnostic. -/
theorem items_unreadable (opts : CompileOptions) (path reason : Bytes) :
    (unreadable opts path reason).bag.items =
      [.error .unreadableFile .empty ("failed to load file: " ++ reason)] := by
  have room : Bag.HasRoom (Bag.ofLimit opts.limit).limit (Bag.ofLimit opts.limit).items.length := by
    show opts.limit ≤ 0 ∨ 0 < opts.limit
    omega
  unfold unreadable
  rw [Bag.items_add, if_pos room]
  rfl

theorem unreadable_hasFailed (opts : CompileOptions) (path reason : Bytes) :
    (unreadable opts path reason).hasFailed = true := by
  rw [hasFailed, Bag.hasErrors, items_unreadable]
  rfl

/-! ## Outcomes from the cache -/

theorem consulting_path (opts : CompileOptions) (f : SourceFile) (answer : CacheAnswer) :
    (consulting opts f answer).1.path = f.path := by
  cases answer with
  | hit e p => rfl
  | miss => exact fresh_path opts f
  | corrupt => exact fresh_path opts f

/-- An answer of the cache that, if it is an outcome, is that of a file with the same content. -/
def Faithful (opts : CompileOptions) (f : SourceFile) (answer : CacheAnswer) : Prop :=
  ∀ e p, answer = .hit e p → ∃ f' : SourceFile, f'.content = f.content ∧
    e.diagnostics = (fresh opts f').bag.items

theorem items_addDropped (b : Bag) (n : Int64) : (b.addDropped n).items = b.items := by
  unfold Bag.addDropped
  split <;> rfl

theorem hasErrors_addDropped (b : Bag) (n : Int64) : (b.addDropped n).hasErrors = b.hasErrors := by
  rw [Bag.hasErrors, items_addDropped]
  rfl

theorem hasFailed_ofEntry {e : CacheEntry} (p : Machine.Program) (stored : e.diagnostics = (fresh opts f').bag.items) :
    (ofEntry opts f e p).hasFailed = (fresh opts f').hasFailed := by
  have again : Bag.kept opts.limit (e.diagnostics.map (·.inFile f.id)) = e.diagnostics.map (·.inFile f.id) := by
    rw [stored, fresh_bag, Bag.items_ofLimit, ← Bag.kept_map, Bag.kept_kept]
  show (((Bag.ofLimit opts.limit).addAll (e.diagnostics.map (·.inFile f.id))).addDropped e.dropped).hasErrors = _
  rw [hasErrors_addDropped, Bag.hasErrors, Bag.items_ofLimit, again, List.any_map, stored]
  rfl

theorem hasFailed_consulting_iff {answer : CacheAnswer} (faithful : Faithful opts f answer) :
    (consulting opts f answer).1.hasFailed = true ↔ Fails opts f ∧ HasRoom opts f := by
  cases answer with
  | miss => exact hasFailed_fresh_iff opts f
  | corrupt => exact hasFailed_fresh_iff opts f
  | hit e p =>
    obtain ⟨f', same, stored⟩ := faithful e p rfl
    show (ofEntry opts f e p).hasFailed = true ↔ _
    rw [hasFailed_ofEntry p stored, hasFailed_fresh_iff]
    unfold HasRoom
    rw [same]
    exact and_congr_left fun _ => ⟨.congr same.symm, .congr same⟩

end Compilation

end LetStack
