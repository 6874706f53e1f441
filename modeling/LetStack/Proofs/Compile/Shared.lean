import LetStack.Proofs.Compile.Entry
import LetStack.Proofs.Compile.Failing
import LetStack.Proofs.Grammar.Stopping
import LetStack.Proofs.Lower.Emitted

/-!
`Compilation.fresh` puts the path and the number of a file into the source of the program and the file of each
diagnostic, and into nothing else (`fresh_shared`). So the entry of one file gives the outcome of any other with its
content, in every format that reads again what it wrote (`consulting_written`). That of `CacheEntry.pack` is one
(`consulting_pack`).
-/

namespace LetStack

/-! ## Walks from contexts that are alike -/

namespace Lower
open Ast Machine

/-- A program counts as begun once a statement had code, even if that was dropped. -/
theorem Context.failed_program (c : Context) (opts : Options) (s : LoweredStmt) (f : Fault) :
    (c.failed opts s f).program =
      { c.program with begun := c.program.begun || !s.lowered.code.isEmpty } := by
  simp [failed, report, discard, Program.truncate, Program.append, Program.length]

/-- Contexts that differ at most in the source and in the diagnostics. -/
structure Context.Alike (c c' : Context) : Prop where
  scope : c.scope = c'.scope
  instrs : c.program.instrs = c'.program.instrs
  begun : c.program.begun = c'.program.begun

namespace Context.Alike

variable {c c' : Context} (h : c.Alike c') (s : LoweredStmt)
include h

theorem commit : (c.commit s).Alike (c'.commit s) where
  scope := by unfold Context.commit; rw [h.scope]
  instrs := by rw [commit_instrs, commit_instrs, h.instrs]
  begun := congrArg (· || !s.lowered.code.isEmpty) h.begun

theorem failed (opts opts' : Options) (f : Fault) : (c.failed opts s f).Alike (c'.failed opts' s f) where
  scope := h.scope
  instrs := by rw [failed_instrs, failed_instrs, h.instrs]
  begun := by rw [failed_program, failed_program, h.begun]

end Context.Alike

theorem walkNodes_alike {opts opts' : Options} (strict : opts.strict = opts'.strict) (b : Builder)
    {c c' : Context} (h : c.Alike c') (ids : List NodeId) :
    (walkNodes opts b c ids).ending = (walkNodes opts' b c' ids).ending ∧
      (walkNodes opts b c ids).context.Alike (walkNodes opts' b c' ids).context := by
  induction ids generalizing c c' with
  | nil => exact ⟨rfl, h⟩
  | cons id ids ih =>
    unfold walkNodes
    rw [← h.scope, ← strict]
    dsimp only
    cases (lowerNode b c.scope id).lowered.outcome with
    | done => exact ih (h.commit _)
    | fault f =>
      dsimp only
      split
      · exact ⟨rfl, h.failed _ opts opts' f⟩
      · exact ih (h.failed _ opts opts' f)
    | broken d =>
      exact ⟨rfl, rfl, congrArg (· ++ (lowerNode b c.scope id).lowered.code) h.instrs,
        congrArg (· || !(lowerNode b c.scope id).lowered.code.isEmpty) h.begun⟩

end Lower

/-! ## Programs of files -/

namespace Machine.Program

/-- Programs whose instructions exist, and that hold none unless they have begun. -/
structure Proper (p : Program) : Prop where
  instrs : ∀ i ∈ p.instrs, i.Proper
  none : p.begun = false → p.instrs = []

theorem proper_start (source : Bytes) : ({ source } : Program).Proper := ⟨nofun, fun _ => rfl⟩

theorem Proper.append {p : Program} (h : p.Proper) {code : List Instr} (proper : ∀ i ∈ code, i.Proper) :
    (p.append code).Proper where
  instrs i mem := by
    rcases List.mem_append.1 mem with before | new
    · exact h.instrs i before
    · exact proper i new
  none unbegun := by
    obtain ⟨before, empty⟩ := Bool.or_eq_false_iff.1 unbegun
    have nothing : code = [] := by simpa using empty
    rw [Program.append, h.none before, nothing]
    rfl

end Machine.Program

namespace Lower
open Ast Machine

theorem Walked.proper {opts : Options} {b : Builder} {c c' : Context} {ids : List NodeId}
    {reports : List (Option Fault)} (h : Walked opts b c ids reports c')
    (nodes : ∀ id ∈ ids, ∀ scope, (lowerNode b scope id).lowered.Proper) (start : c.program.Proper) :
    c'.program.Proper ∧ c'.program.source = c.program.source := by
  induction h with
  | nil => exact ⟨start, rfl⟩
  | done _ _ ih =>
    exact ih (fun id hid => nodes id (.tail _ hid)) (start.append (nodes _ (.head _) _).code)
  | @fault c _ id _ _ f _ _ ih =>
    have kept := c.failed_program opts (lowerNode b c.scope id) f
    have proper : (c.failed opts (lowerNode b c.scope id) f).program.Proper := by
      rw [kept]
      exact ⟨start.instrs, fun unbegun => start.none (Bool.or_eq_false_iff.1 unbegun).1⟩
    obtain ⟨after, source⟩ := ih (fun id hid => nodes id (.tail _ hid)) proper
    exact ⟨after, by rw [source, kept]⟩

end Lower

namespace Compilation
open Ast Lower

section
variable {opts : CompileOptions} {f : SourceFile}

theorem fresh_failed {failure : Grammar.Failure}
    (failed : Grammar.parseModule (tokenize f.content) = .error failure) :
    (fresh opts f).program = { source := f.path } ∧ (fresh opts f).aborted = false := by
  rw [fresh_of_error failed]
  exact ⟨rfl, rfl⟩

theorem fresh_parsed {statements : List Statement}
    (parsed : Grammar.parseModule (tokenize f.content) = .ok statements) :
    (fresh opts f).program = (walkOf opts f).context.program ∧
      ((fresh opts f).aborted = true ↔ ∃ fault, (walkOf opts f).ending = .aborted fault) := by
  obtain ⟨id, b, m, _, _, _, same⟩ := @fresh_of_ok opts f _ parsed
  rw [same]
  refine ⟨rfl, ?_⟩
  cases ending : (walkOf opts f).ending <;> simp [lowered, ran, ending]

theorem fresh_proper (opts : CompileOptions) (f : SourceFile) :
    (fresh opts f).program.Proper ∧ (fresh opts f).program.source = f.path := by
  cases parsed : Grammar.parseModule (tokenize f.content) with
  | error failure =>
    rw [(fresh_failed parsed).1]
    exact ⟨Machine.Program.proper_start _, rfl⟩
  | ok statements =>
    obtain ⟨id, b, m, _, stored, walk, _⟩ := @fresh_of_ok opts f _ parsed
    obtain ⟨walked, rest, split, run, _⟩ := walkModule_parsed (lowering opts f) (lowerStart f) stored parsed
    have lowers := stored.lowers parsed
    rw [(fresh_parsed parsed).1, walk]
    refine run.proper (fun id hid scope => ?_) (Machine.Program.proper_start _)
    rw [split] at lowers
    obtain ⟨s, hs, same⟩ := exists_statement_of_lowers lowers (List.mem_append_left rest hid)
    rw [same]
    exact Statement.lower_proper parsed hs scope

end

end Compilation

/-! ## Diagnostics of files -/

theorem Code.number_lt_of_family {c : Code} {family : String} (h : c.family? = some family) : c.number < 0x10000 := by
  unfold family? at h
  split at h <;> first | omega | cases h

theorem Grammar.Derives.module_length {ss : List Ast.StatementForm} {w : List Token}
    (h : Derives (.module ss) w) : ss.length ≤ w.length := by
  induction ss generalizing w with
  | nil => exact Nat.zero_le _
  | cons s ss ih =>
    cases h with
    | statements first rest =>
      have some := List.length_pos_iff.2 first.statement_ne_nil
      have others := ih rest
      rw [List.length_cons, List.length_append]
      omega

theorem Scanner.length_run_le (s : Scanner) : s.run.1.length ≤ s.rest.length := by
  fun_induction run s with
  | case1 => exact Nat.zero_le _
  | case2 s tok t next toks last rest ih =>
    rw [rest] at ih
    exact Nat.lt_of_le_of_lt ih (next?_rest_length_lt next)

theorem length_tokenize_le (src : Bytes) : (tokenize src).length ≤ src.length :=
  (Scanner.ofSource src).length_run_le

namespace Compilation
open Ast Lower

theorem known_of_mem_reportsOf {opts : CompileOptions} {f : SourceFile} {d : Diagnostic}
    (h : d ∈ reportsOf opts f) : d.Known := by
  rcases List.mem_append.1 h with warning | error
  · obtain ⟨tok, _, rfl⟩ := List.mem_map.1 warning
    exact ⟨by simp [Diagnostic.warning, Diagnostic.inFile], (by decide : Code.unrecognizedInput.number < 0x10000)⟩
  · refine ⟨by simp [severity_errorsOf error], ?_⟩
    unfold errorsOf at error
    split at error
    · next failed =>
      cases List.mem_singleton.1 error
      rw [(failure_diagnostic _ f.id).2]
      exact Code.number_lt_of_family (Grammar.parseModule_failure failed).code
    · next statements parsed =>
      rw [items_walkOf parsed] at error
      obtain ⟨report, reported, mapped⟩ := List.mem_filterMap.1 error
      obtain ⟨fault, rfl, rfl⟩ := Option.map_eq_some_iff.1 mapped
      obtain ⟨s, hs, scope, out⟩ := exists_statement_of_report parsed reported
      exact Statement.lower_code_lt parsed hs out

/-- There is at most one report for each token, and one for each statement or for the parse. -/
theorem length_reportsOf_le (opts : CompileOptions) (f : SourceFile) :
    (reportsOf opts f).length ≤ 2 * f.content.length + 1 := by
  have tokens := length_tokenize_le f.content
  have warnings : (Diagnostic.ofTokens f.id (tokenize f.content)).length ≤ (tokenize f.content).length := by
    rw [Diagnostic.ofTokens, List.length_map]
    exact List.length_filter_le _ _
  have errors : (errorsOf opts f).length ≤ (tokenize f.content).length + 1 := by
    unfold errorsOf
    split
    · exact Nat.succ_le_succ (Nat.zero_le _)
    · next statements parsed =>
      obtain ⟨id, b, m, _, stored, walk, _⟩ := @fresh_of_ok opts f _ parsed
      obtain ⟨walked, rest, split, run, _⟩ := walkModule_parsed (lowering opts f) (lowerStart f) stored parsed
      calc (walkOf opts f).context.bag.items.length
        _ ≤ (walkOf opts f).reports.length := by
          rw [items_walkOf parsed]
          exact List.length_filterMap_le _ _
        _ = walked.length := walk ▸ run.length_eq
        _ ≤ m.nodes.length := by rw [split, List.length_append]; exact Nat.le_add_right _ _
        _ = statements.length := length_eq_of_lowers (stored.lowers parsed)
        _ ≤ (tokenize f.content).length := by
          have statements := (Grammar.parseModule_sound parsed).1.module_length
          rwa [List.length_map] at statements
        _ ≤ _ := Nat.le_succ _
  rw [reportsOf, List.length_append]
  omega

/-! ## Outcomes of files with the same content -/

/-- Compilations with the same outcome: the file, its code and what is reported about it. How the outcome
was found is left out. -/
structure SameOutcome (c c' : Compilation) : Prop where
  path : c.path = c'.path
  file : c.file = c'.file
  program : c.program = c'.program
  bag : c.bag = c'.bag
  aborted : c.aborted = c'.aborted

theorem walkOf_alike (opts : CompileOptions) {f f' : SourceFile} (same : f'.content = f.content) :
    (walkOf opts f').ending = (walkOf opts f).ending ∧
      (walkOf opts f').context.Alike (walkOf opts f).context := by
  unfold walkOf
  rw [same]
  split
  · exact ⟨rfl, rfl, rfl, rfl⟩
  · unfold walkModule
    split
    · exact ⟨rfl, rfl, rfl, rfl⟩
    · exact walkNodes_alike (by rfl) _ ⟨by rfl, by rfl, by rfl⟩ _

section
variable {opts : CompileOptions} {f f' : SourceFile} (same : f'.content = f.content)
include same

theorem errorsOf_shared : errorsOf opts f = (errorsOf opts f').map (·.inFile f.id) := by
  unfold errorsOf
  rw [same]
  split
  · next failure _ =>
    unfold Grammar.Failure.diagnostic
    cases failure.cause <;> rfl
  · next statements parsed =>
    have parsed' := parsed
    rw [← same] at parsed'
    rw [items_walkOf parsed, items_walkOf parsed', reports_walkOf opts same, diagnostics, diagnostics,
      List.map_filterMap]
    congr 1
    funext report
    cases report <;> rfl

theorem reportsOf_shared : reportsOf opts f = (reportsOf opts f').map (·.inFile f.id) := by
  have warnings : Diagnostic.ofTokens f.id (tokenize f.content) =
      (Diagnostic.ofTokens f'.id (tokenize f.content)).map (·.inFile f.id) := by
    rw [Diagnostic.ofTokens, Diagnostic.ofTokens, List.map_map]
    rfl
  rw [reportsOf, reportsOf, List.map_append, ← errorsOf_shared same, same, ← warnings]

theorem fresh_shared :
    (fresh opts f).program = { (fresh opts f').program with source := f.path } ∧
      (fresh opts f).aborted = (fresh opts f').aborted := by
  have source := (fresh_proper opts f).2
  cases parsed : Grammar.parseModule (tokenize f.content) with
  | error failure =>
    have parsed' := parsed
    rw [← same] at parsed'
    rw [(fresh_failed parsed).1, (fresh_failed parsed).2, (fresh_failed parsed').1, (fresh_failed parsed').2]
    exact ⟨rfl, rfl⟩
  | ok statements =>
    have parsed' := parsed
    rw [← same] at parsed'
    obtain ⟨ending, alike⟩ := walkOf_alike opts same
    obtain ⟨program, aborted⟩ := @fresh_parsed opts f _ parsed
    obtain ⟨program', aborted'⟩ := @fresh_parsed opts f' _ parsed'
    constructor
    · dsimp only
      rw [program', alike.instrs, alike.begun, ← program, ← source]
    · exact Bool.eq_iff_iff.2 (by rw [aborted, aborted', ending])

end

/-! ## Entries of files with the same content -/

/-- What is read of the entry of a file. -/
def storedEntry (opts : CompileOptions) (f : SourceFile) : CacheEntry :=
  { (fresh opts f).entry f with diagnostics := (fresh opts f).bag.items.map CacheEntry.readBack }

theorem ofEntry_stored {opts : CompileOptions} {f f' : SourceFile} (same : f'.content = f.content)
    (small : f.content.length < 0x4000000000000000) :
    SameOutcome (ofEntry opts f (storedEntry opts f') (fresh opts f').program) (fresh opts f) := by
  obtain ⟨program, aborted⟩ := @fresh_shared opts _ _ same
  refine ⟨(fresh_path opts f).symm, (fresh_file opts f).symm, program.symm, ?_, aborted.symm⟩
  · have few : (reportsOf opts f).length < 0x8000000000000000 := by
      have bound := length_reportsOf_le opts f
      omega
    have items : ((fresh opts f').bag.items.map CacheEntry.readBack).map (·.inFile f.id) =
        Bag.kept opts.limit (reportsOf opts f) := by
      rw [fresh_bag, Bag.items_ofLimit, reportsOf_shared same, ← Bag.kept_map, List.map_map]
      rfl
    have dropped : (fresh opts f').bag.dropped = ((Bag.ofLimit opts.limit).addAll (reportsOf opts f)).dropped := by
      rw [fresh_bag, reportsOf_shared same, Bag.dropped_map]
    show ((Bag.ofLimit opts.limit).addAll
      (((fresh opts f').bag.items.map CacheEntry.readBack).map (·.inFile f.id))).addDropped
        (fresh opts f').bag.dropped = _
    rw [items, dropped, Bag.addAll_kept few, fresh_bag]

/-- An entry of a file with the same content holds the outcome in every format that reads again what it wrote. -/
theorem consulting_written {opts : CompileOptions} {f f' : SourceFile} (same : f'.content = f.content)
    (small : f.content.length < 0x4000000000000000) {unpackEntry : Bytes → Option CacheEntry}
    {unpackProgram : Bytes → Option Machine.Program} {written : Bytes}
    (entry : unpackEntry written = some (storedEntry opts f'))
    (program : unpackProgram (fresh opts f').program.pack = some (fresh opts f').program) :
    ∃ c, consulting opts f (.ofStoredBy unpackEntry unpackProgram (some written)) = (c, none) ∧
      SameOutcome c (fresh opts f) := by
  have answer : CacheAnswer.ofStoredBy unpackEntry unpackProgram (some written) =
      .hit (storedEntry opts f') (fresh opts f').program := by
    have code : unpackProgram (storedEntry opts f').program = some (fresh opts f').program := program
    simp only [CacheAnswer.ofStoredBy, Option.bind_some, entry, code]
  rw [answer]
  exact ⟨_, rfl, ofEntry_stored same small⟩

theorem consulting_pack {opts : CompileOptions} {f f' : SourceFile} (same : f'.content = f.content)
    (small : f.content.length < 0x4000000000000000) (hash : f'.hash.length = 32)
    (fits : ((fresh opts f').entry f').Fits) :
    ∃ c, consulting opts f (.ofStored (some ((fresh opts f').entry f').pack)) = (c, none) ∧
      SameOutcome c (fresh opts f) := by
  have known : ∀ d ∈ ((fresh opts f').entry f').diagnostics, d.Known := by
    intro d mem
    have kept : d ∈ (fresh opts f').bag.items := mem
    rw [fresh_bag, Bag.items_ofLimit] at kept
    exact known_of_mem_reportsOf (Bag.mem_of_mem_kept kept)
  have proper := (fresh_proper opts f').1
  have portable : (fresh opts f').program.Portable :=
    Machine.Program.portable_of_length fits.program (fun i mem => (proper.instrs i mem).float) proper.none
  have program := Machine.Program.unpack_pack_of_known portable fun i mem => (proper.instrs i mem).op
  exact consulting_written same small (CacheEntry.unpack?_pack rfl hash fits known) (congrArg Except.toOption program)

end Compilation

end LetStack
