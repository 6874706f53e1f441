import LetStack.Proofs.Compile.Batch

/-!
What a compilation can end with, whatever the cache holds (`Job.Yields`): with steps in any order
(`Batch.yields_of_outcome`) and by `compileAll` (`compileAll_yields`).
-/

namespace LetStack
open Compilation

/-- What a compilation can end with. -/
inductive Job.Yields : Job → Compilation → Prop
  | unreadable (opts : CompileOptions) (path reason : Bytes) :
      Yields ⟨opts, .failed path reason⟩ (.unreadable opts path reason)
  | fresh (opts : CompileOptions) (f : SourceFile) : Yields ⟨opts, .file f⟩ (.fresh opts f)
  | consulted (opts : CompileOptions) (f : SourceFile) (answer : CacheAnswer) :
      Yields ⟨opts, .file f⟩ (consulting opts f answer).1

theorem Job.Yields.path_of_file {opts : CompileOptions} {f : SourceFile} {c : Compilation}
    (h : Job.Yields ⟨opts, .file f⟩ c) : c.path = f.path := by
  cases h with
  | fresh => exact fresh_path opts f
  | consulted _ _ answer => exact consulting_path opts f answer

theorem Job.Yields.path_of_loaded {opts : CompileOptions} {t : FileTree} {fs : FileSet} {path : Bytes}
    {loaded : FileTree.Loaded} {c : Compilation} (h : Job.Yields ⟨opts, loaded⟩ c)
    (origin : LoadedFrom t fs path loaded) : c.path = Path.clean path := by
  cases loaded with
  | file f =>
    obtain ⟨-, -, -, cleaned, -⟩ := origin
    exact h.path_of_file.trans cleaned
  | failed shown reason =>
    obtain ⟨-, -, rfl, -⟩ := origin
    cases h
    rfl

/-! ## Side by side -/

/-- A stage from which a compilation comes to such an end. -/
def Job.Stage.Toward (j : Job) : Job.Stage → Prop
  | .asking opts f => j = ⟨opts, .file f⟩
  | .keeping c _ _ => ∃ opts f answer, j = ⟨opts, .file f⟩ ∧ c = (consulting opts f answer).1
  | .done c => j.Yields c

theorem Job.Stage.toward_start (j : Job) : (Job.Stage.start j).Toward j := by
  obtain ⟨opts, source⟩ := j
  cases source with
  | file f => rfl
  | failed path reason => exact .unreadable opts path reason

theorem Job.Stage.Toward.step {j : Job} {s : Job.Stage} (h : s.Toward j) (dir : Bytes) (t : FileTree) :
    (s.step dir t).1.Toward j := by
  cases s with
  | asking opts f =>
    obtain rfl : j = ⟨opts, .file f⟩ := h
    have ends := Job.Yields.consulted opts f (.ofStored (t.read (entryPath dir (cacheKey f.hash opts))).toOption)
    rw [Job.Stage.step]
    split
    · next c asked => exact (asked ▸ ends : Job.Yields _ c)
    · next c e asked => exact ⟨opts, f, _, rfl, by rw [asked]⟩
  | keeping c key e =>
    obtain ⟨opts, f, answer, rfl, rfl⟩ := h
    rw [Job.Stage.step]
    split <;> exact .consulted opts f answer
  | done c => exact h

namespace Batch

variable {dir : Bytes} {jobs : List Job} {s : Batch}

/-- What holds of each compilation at its stage, and is kept by its steps, holds after steps in any order. -/
theorem run_keeps {holds : Job → Job.Stage → Prop}
    (kept : ∀ j stage t, holds j stage → holds j (stage.step dir t).1)
    (start : ∀ (i : Nat) j stage, jobs[i]? = some j → s.stages[i]? = some stage → holds j stage)
    (schedule : List Nat) (i : Nat) (j : Job) (stage : Job.Stage) (job : jobs[i]? = some j)
    (there : (s.run dir schedule).stages[i]? = some stage) : holds j stage := by
  induction schedule generalizing s with
  | nil => exact start i j stage job there
  | cons k schedule ih =>
    refine ih (fun i j stage job there => ?_) there
    cases moved : s.stages[k]? with
    | none =>
      rw [step, moved] at there
      exact start i j stage job there
    | some before =>
      by_cases same : k = i
      · subst same
        rw [(step_of_getElem? moved).1] at there
        cases there
        exact kept j before s.tree (start k j before job moved)
      · rw [getElem?_step_ne same] at there
        exact start i j stage job there

theorem yields_of_outcome {t : FileTree} {schedule : List Nat} {i : Nat} {j : Job} {c : Compilation}
    (job : jobs[i]? = some j) (ended : ((start t jobs).run dir schedule).outcome? i = some c) : j.Yields c := by
  obtain ⟨stage, there, last⟩ := Option.bind_eq_some_iff.1 ended
  have toward : stage.Toward j := by
    refine run_keeps (fun j stage t h => h.step dir t) (fun i j stage job there => ?_) schedule i j stage job there
    rw [start, List.getElem?_map, job] at there
    cases there
    exact Job.Stage.toward_start j
  cases stage with
  | asking => cases last
  | keeping => cases last
  | done c =>
    cases last
    exact toward

end Batch

/-! ## One after another -/

theorem compileFile_yields (t : FileTree) (opts : CompileOptions) (cacheDir? : Option Bytes) (f : SourceFile) :
    Job.Yields ⟨opts, .file f⟩ (t.compileFile opts cacheDir? f).1 := by
  cases cacheDir? with
  | none => exact .fresh opts f
  | some dir =>
    have ends := ((Job.Stage.toward_start ⟨opts, .file f⟩).step dir t).step dir
      ((Job.Stage.asking opts f).step dir t).2
    rwa [show Job.Stage.start ⟨opts, .file f⟩ = .asking opts f from rfl, compileFile_steps] at ends

theorem compile_yields {t t' : FileTree} {opts : CompileOptions} {cacheDir? : Option Bytes} {path : Bytes}
    {fs : FileSet} {c : Compilation} (h : t.compile opts cacheDir? path = .ok (fs, c, t')) :
    ∃ loaded, LoadedFrom t fs path loaded ∧ Job.Yields ⟨opts, loaded⟩ c := by
  unfold FileTree.compile at h
  cases read : t.read path with
  | error e =>
    rw [read] at h
    cases h
  | ok content =>
    rw [read] at h
    obtain ⟨f, found, id, named, cut, digest⟩ := get?_addLoaded_self {} path content
    simp only [bind, Except.bind] at h
    rw [found] at h
    obtain ⟨rfl, outcome⟩ := Prod.mk.inj (Except.ok.inj h)
    have yields := compileFile_yields t opts cacheDir? f
    rw [outcome] at yields
    exact ⟨.file f, ⟨content, read, id ▸ found, named, cut, digest⟩, yields⟩

theorem compileAll_yields (t : FileTree) (opts : CompileOptions) (cacheDir? : Option Bytes)
    (loaded : List FileTree.Loaded) :
    (t.compileAll opts cacheDir? loaded).1.length = loaded.length ∧
      ∀ (i : Nat) source, loaded[i]? = some source → ∃ c, (t.compileAll opts cacheDir? loaded).1[i]? = some c ∧
        Job.Yields ⟨opts, source⟩ c := by
  induction loaded generalizing t with
  | nil => exact ⟨rfl, by rintro i source ⟨⟩⟩
  | cons source loaded ih =>
    -- the first outcome, and then those of the others in the tree it leaves
    obtain ⟨first, t', split, yields⟩ : ∃ first, ∃ t' : FileTree,
        (t.compileAll opts cacheDir? (source :: loaded)).1 = first :: (t'.compileAll opts cacheDir? loaded).1 ∧
        Job.Yields ⟨opts, source⟩ first := by
      cases source with
      | failed path reason => exact ⟨_, t, rfl, .unreadable opts path reason⟩
      | file f => exact ⟨_, _, rfl, compileFile_yields t opts cacheDir? f⟩
    obtain ⟨length, rest⟩ := ih t'
    rw [split]
    refine ⟨congrArg (· + 1) length, fun i source' found => ?_⟩
    cases i with
    | zero =>
      cases found
      exact ⟨first, rfl, yields⟩
    | succ i => exact rest i source' found

end LetStack
