import LetStack.Proofs.Compile.Total
import LetStack.Proofs.Trace.Nesting

/-!
The events of compiling a text. `traceNodes` reports points, `traceModule` puts them into the span of the walk, and
every phase starts and stops a span of its own (`traceModule_fits`, `traceFresh_fits`, `traceCompile_fits`). A phase
is left open only where bytes out of range are asked for or the tree is broken, so compiling a text leaves a bracketed
sequence of events (`compilation_trace_is_bracketed`). The outcome is the same as without a tracer (`traceFile_fst`).
-/

namespace LetStack
open Trace

namespace Lower
open Ast

theorem traceNodes_fits (opts : Options) (b : Builder) (span : UInt64) (i : Nat) (c : Context) (t : Tracer)
    (ids : List NodeId) : Fits .statement span 0 t (traceNodes opts b span i c t ids).2 := by
  induction ids generalizing i c t with
  | nil => exact .refl ..
  | cons id ids ih =>
    cases out : (lowerNode b c.scope id).lowered.outcome with
    | done =>
      simp only [traceNodes, out]
      exact (Fits.point ..).trans (ih ..)
    | fault f =>
      by_cases stops : opts.strict ∧ f.kind = .unimplemented
      · simp only [traceNodes, out, if_pos stops]
        exact .point ..
      · simp only [traceNodes, out, if_neg stops]
        exact (Fits.point ..).trans (ih ..)
    | broken d =>
      simp only [traceNodes, out]
      exact .refl ..

theorem traceModule_fits (opts : Options) (b : Builder) (parent : UInt64) (c : Context) (t : Tracer) (id : ModuleId) :
    Fits .pass parent 1 t (traceModule opts b parent c t id).2 := by
  cases found : b.module? id with
  | none =>
    simp only [traceModule, found]
    exact .refl ..
  | some m =>
    simp only [traceModule, found]
    generalize begun : t.start .pass "codegen" parent = begin
    obtain ⟨span, t'⟩ := begin
    have inside := traceNodes_fits opts b span.id 0 c t' m.nodes
    -- the numbers of nodes that are attached to the span are all that its end differs in
    obtain ⟨extra, first⟩ := span.withExtra_frame "nodes" (Bytes.ofNat m.nodes.length)
    obtain ⟨extra', second⟩ := ActiveSpan.withExtra_frame { span with extra } "failed"
      (Bytes.ofNat ((traceNodes opts b span.id 0 c t' m.nodes).1.reports.countP Option.isSome))
    rw [first]
    exact .span begun (inside.mono (by decide) (Nat.le_refl 0)) second []

end Lower

namespace Compilation

variable (opts : CompileOptions) {f : SourceFile} (parent : UInt64)

theorem traceLowering_fits {c : Compilation} {b : Ast.Builder} {id : Ast.ModuleId} {walk : Lower.Walk}
    (walked : Lower.walkModule (lowering opts f) b (lowerStart f) id = walk)
    (ending : walk.ending = .finished ∨ ∃ fault, walk.ending = .aborted fault) (t : Tracer) :
    Fits .pass parent 2 t (traceLowering opts f parent c b id t).2 := by
  subst walked
  dsimp only [traceLowering]
  rw [Lower.traceModule_fst]
  generalize begun : t.start .pass Phase.codegen.name parent = begin
  obtain ⟨span, t'⟩ := begin
  have inside := Lower.traceModule_fits (lowering opts f) b span.id (lowerStart f) t' id
  rcases ending with finished | ⟨fault, stopped⟩
  · rw [finished]
    exact .span begun inside rfl _
  · rw [stopped]
    exact .span begun inside rfl _

theorem traceParsing_fits (t : Tracer) :
    Fits .pass parent 3 t
      (traceParsing opts f parent ((blank opts f).scanned f (tokenize f.content)) (tokenize f.content) t).2 := by
  dsimp only [traceParsing]
  generalize begun : t.start .pass Phase.parse.name parent = begin
  obtain ⟨span, t'⟩ := begin
  cases parsed : Grammar.parseModule (tokenize f.content) with
  | error failure =>
    have built := Grammar.buildModule_of_error {} parsed
    generalize Grammar.buildModule {} (tokenize f.content) = outcome at built ⊢
    obtain ⟨result, b⟩ := outcome
    cases built
    dsimp only
    rw [if_pos (isOwn_of_failure parsed)]
    exact (Fits.bare begun []).mono (Nat.le_refl _) (by decide)
  | ok statements =>
    obtain ⟨id, b, m, built, _, walk, _⟩ := @fresh_of_ok opts f _ parsed
    rw [built]
    exact (Fits.bare begun []).trans (traceLowering_fits opts parent walk.symm (walkOf_ending opts f) _)

theorem traceFresh_fits (short : f.content.length < UInt32.size) (t : Tracer) :
    Fits .pass parent 4 t (traceFresh opts f parent t).2 := by
  dsimp only [traceFresh]
  rw [Lexer.tokenize?_eq short]
  generalize begun : t.start .pass Phase.lex.name parent = begin
  obtain ⟨span, t'⟩ := begin
  exact (Fits.bare begun _).trans (traceParsing_fits opts parent _)

end Compilation

namespace FileTree

variable (tree : FileTree) (opts : CompileOptions) {f : SourceFile} (short : f.content.length < UInt32.size)
  (parent : UInt64)
include short

/-! ## With a cache -/

theorem traceAnew_fits (dir note : Bytes) (t : Tracer) :
    Fits .pass parent 4 t (tree.traceAnew opts dir f note parent t).2 := by
  have inside := Compilation.traceFresh_fits opts parent short t
  have outcome := Compilation.traceFresh_fst opts parent short t
  unfold traceAnew
  generalize Compilation.traceFresh opts f parent t = traced at inside outcome ⊢
  obtain ⟨c, t'⟩ := traced
  cases outcome
  dsimp only
  split
  · exact inside
  · exact inside.trans (.point ..)

theorem traceAnew_fst (dir note : Bytes) (t : Tracer) :
    let c := { Compilation.fresh opts f with phases := { phase := .cache, note } :: (Compilation.fresh opts f).phases }
    (tree.traceAnew opts dir f note parent t).1 =
      .ok (c, ((tree.putEntry dir (cacheKey f.hash opts) (c.entry f)).toOption).getD tree) := by
  have outcome := Compilation.traceFresh_fst opts parent short t
  unfold traceAnew
  generalize Compilation.traceFresh opts f parent t = traced at outcome ⊢
  obtain ⟨c, t'⟩ := traced
  cases outcome
  dsimp only
  split
  · next kept => rw [kept]; rfl
  · next failed => rw [failed]; rfl

theorem traceCompile_fits (cacheDir? : Option Bytes) (t : Tracer) :
    Fits .pass parent 5 t (tree.traceCompile opts cacheDir? f parent t).2 := by
  cases cacheDir? with
  | none => exact (Compilation.traceFresh_fits opts parent short t).mono (Nat.le_refl _) (by decide)
  | some dir =>
    dsimp only [traceCompile]
    generalize begun : t.start .pass Phase.cache.name parent = begin
    obtain ⟨span, t'⟩ := begin
    split
    · exact (Fits.bare begun _).trans (tree.traceAnew_fits opts short parent ..)
    · exact (Fits.bare begun _).trans (tree.traceAnew_fits opts short parent ..)
    · exact (Fits.bare begun _).mono (Nat.le_refl _) (by decide)

theorem traceFile_fst (cacheDir? : Option Bytes) (t : Tracer) :
    (tree.traceFile opts cacheDir? f parent t).1 = .ok (tree.compileFile opts cacheDir? f) := by
  cases cacheDir? with
  | none =>
    dsimp only [traceFile, traceCompile]
    rw [Compilation.traceFresh_fst opts _ short]
    rfl
  | some dir =>
    dsimp only [traceFile, traceCompile, compileFile]
    cases CacheAnswer.ofStored (tree.read (entryPath dir (cacheKey f.hash opts))).toOption with
    | miss | corrupt =>
      dsimp only [Compilation.consulting]
      rw [tree.traceAnew_fst opts short]
      split <;> (next same => rw [same]; rfl)
    | hit e p => rfl

omit short

/-! ## Texts -/

/-- `1;` at the finest level: the file, its three phases, and in the last of them the walk with a point for the one
statement. -/
example :
    let t : Tracer := (Tracer.ofRing? 16 16 .debug).getD .silent
    (({} : FileTree).traceText {} none [0x66] [0x31, 0x3B] 0 t).2.snapshot.map (fun e => (e.kind, e.span, e.parent)) =
      [(.start, 1, 0), (.start, 2, 1), (.stop, 2, 1), (.start, 3, 1), (.stop, 3, 1), (.start, 4, 1), (.start, 5, 4),
       (.point, 0, 5), (.stop, 5, 4), (.stop, 4, 1), (.stop, 1, 0)] := by
  decide +kernel

end FileTree

end LetStack
