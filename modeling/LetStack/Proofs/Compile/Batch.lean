import LetStack.Proofs.Compile.Key
import LetStack.Proofs.Compile.Shared
import LetStack.Proofs.Compile.Stored

/-!
Compilations that share a cache. Each asks it in one step and calls `putEntry` in another, and `Batch.run` takes the
steps in any order. Every compilation has the outcome it has without a cache (`cache_transparent`).
-/

namespace LetStack
open Compilation

/-! ## Compilations in steps -/

/-- A file to be compiled, or one that could not be read, with its options. -/
structure Job where
  options : CompileOptions
  source : FileTree.Loaded

/-- The outcome without a cache. -/
def Job.plain (j : Job) : Compilation :=
  match j.source with
  | .file f => .fresh j.options f
  | .failed path reason => .unreadable j.options path reason

/-- The texts that digests are taken of. -/
def Job.hashed (j : Job) : List Bytes :=
  match j.source with
  | .file f => hashedFor f.content j.options
  | .failed .. => []

/-- How far a compilation has come. -/
inductive Job.Stage where
  /-- The cache is to be asked. -/
  | asking (opts : CompileOptions) (f : SourceFile)
  /-- The entry is to be kept. -/
  | keeping (c : Compilation) (key : Digest) (e : CacheEntry)
  | done (c : Compilation)

namespace Job.Stage

def start (j : Job) : Job.Stage :=
  match j.source with
  | .file f => asking j.options f
  | .failed path reason => done (.unreadable j.options path reason)

def outcome? : Job.Stage → Option Compilation
  | done c => some c
  | _ => none

/-- One step, in which nobody else gets at the cache. -/
def step (dir : Bytes) (t : FileTree) : Job.Stage → Job.Stage × FileTree
  | asking opts f =>
    let key := cacheKey f.hash opts
    match consulting opts f (.ofStored (t.read (entryPath dir key)).toOption) with
    | (c, none) => (done c, t)
    | (c, some e) => (keeping c key e, t)
  | keeping c key e =>
    match t.putEntry dir key e with
    | .ok t => (done c, t)
    | .error _ => (done c, t)
  | done c => (done c, t)

/-- How many steps are left at most. -/
def left : Job.Stage → Nat
  | asking .. => 2
  | keeping .. => 1
  | done _ => 0

theorem left_step (dir : Bytes) (t : FileTree) (s : Job.Stage) : (s.step dir t).1.left ≤ s.left - 1 := by
  cases s with
  | asking opts f =>
    rw [step]
    split
    · exact Nat.zero_le _
    · exact Nat.le_refl _
  | keeping c key e =>
    rw [step]
    split <;> exact Nat.le_refl _
  | done c => exact Nat.le_refl _

theorem left_start (j : Job) : (start j).left ≤ 2 := by
  unfold start
  split
  · exact Nat.le_refl _
  · exact Nat.zero_le _

theorem exists_outcome {s : Job.Stage} (h : s.left = 0) : ∃ c, s.outcome? = some c := by
  cases s with
  | asking => cases h
  | keeping => cases h
  | done c => exact ⟨c, rfl⟩

end Job.Stage

/-- Compilations side by side, and the files their cache is among. -/
structure Batch where
  tree : FileTree
  stages : List Job.Stage

namespace Batch

def start (t : FileTree) (jobs : List Job) : Batch := ⟨t, jobs.map .start⟩

/-- A step of one of the compilations. -/
def step (dir : Bytes) (s : Batch) (i : Nat) : Batch :=
  match s.stages[i]? with
  | none => s
  | some stage => ⟨(stage.step dir s.tree).2, s.stages.set i (stage.step dir s.tree).1⟩

/-- Steps of the compilations in some order. -/
def run (dir : Bytes) (s : Batch) (schedule : List Nat) : Batch := schedule.foldl (step dir) s

/-- The outcome of a compilation, if it has one by now. -/
def outcome? (s : Batch) (i : Nat) : Option Compilation := s.stages[i]?.bind Job.Stage.outcome?

end Batch

/-! ## What a cache may hold -/

/-- What is kept for a key: the entry of a file that has it. -/
def Kept (jobs : List Job) (key : Digest) (content : Bytes) : Prop :=
  ∃ opts f, ⟨opts, .file f⟩ ∈ jobs ∧ key = cacheKey f.hash opts ∧ content = ((fresh opts f).entry f).pack

/-- Files with the digests of their contents. -/
def Hashed (jobs : List Job) : Prop := ∀ opts f, ⟨opts, .file f⟩ ∈ jobs → f.hash = Sha256.hash f.content

/-- Compilations that a cache can serve: no two texts have one digest, entries are of a length that their format
can say, and there are no more reports than can be counted. -/
structure Cacheable (jobs : List Job) : Prop where
  clean : Sha256.NoCollision (jobs.flatMap Job.hashed)
  fits : ∀ opts f, ⟨opts, .file f⟩ ∈ jobs → ((fresh opts f).entry f).pack.length < 0x100000000
  size : ∀ opts f, ⟨opts, .file f⟩ ∈ jobs → f.content.length < 0x4000000000000000

/-- A stage that a compilation can be in. -/
def Job.Stage.Of (j : Job) : Job.Stage → Prop
  | .asking opts f => j = ⟨opts, .file f⟩
  | .keeping c key e =>
    SameOutcome c j.plain ∧
      ∃ opts f, j = ⟨opts, .file f⟩ ∧ key = cacheKey f.hash opts ∧ e = (fresh opts f).entry f
  | .done c => SameOutcome c j.plain

variable {jobs : List Job} {j : Job} {t : FileTree} {dir : Bytes}

theorem Job.Stage.of_start (j : Job) : Job.Stage.Of j (.start j) := by
  obtain ⟨opts, source⟩ := j
  cases source with
  | file f => rfl
  | failed path reason => exact ⟨rfl, rfl, rfl, rfl, rfl⟩

section
variable (hashed : Hashed jobs) (cacheable : Cacheable jobs) (holds : CacheHolds t dir (Kept jobs))
include hashed cacheable holds

/-- An answer of the cache leads to the outcome of compiling anew. -/
theorem consulting_same {opts : CompileOptions} {f : SourceFile} (mem : ⟨opts, .file f⟩ ∈ jobs) {c : Compilation}
    {kept : Option CacheEntry}
    (h : consulting opts f (.ofStored (t.read (entryPath dir (cacheKey f.hash opts))).toOption) = (c, kept)) :
    SameOutcome c (fresh opts f) ∧ ∀ e ∈ kept, e = (fresh opts f).entry f := by
  have used {opts : CompileOptions} {f : SourceFile} (mem : ⟨opts, .file f⟩ ∈ jobs) :
      hashedFor f.content opts ⊆ jobs.flatMap Job.hashed :=
    fun x here => List.mem_flatMap.2 ⟨⟨opts, .file f⟩, mem, here⟩
  cases found : t.read (entryPath dir (cacheKey f.hash opts)) with
  | error reason =>
    rw [found] at h
    cases h
    refine ⟨⟨rfl, rfl, rfl, rfl, rfl⟩, ?_⟩
    rintro e ⟨⟩
    rfl
  | ok content =>
    -- the entry is that of a file with the same content and options
    obtain ⟨opts', f', mem', same, rfl⟩ := holds.read found
    rw [hashed opts f mem, hashed opts' f' mem'] at same
    obtain ⟨content, rfl⟩ := cacheKey_determines cacheable.clean (used mem) (used mem') same
    have length : f'.hash.length = 32 := by rw [hashed opts f' mem', Sha256.length_hash]
    obtain ⟨c, answer, outcome⟩ := consulting_pack content.symm (cacheable.size opts f mem) length
      (CacheEntry.fits_of_length (cacheable.fits opts f' mem'))
    rw [found, Except.toOption, answer] at h
    cases h
    exact ⟨outcome, nofun⟩

theorem Job.Stage.Of.step (mem : j ∈ jobs) {s : Job.Stage} (h : s.Of j) :
    CacheHolds (s.step dir t).2 dir (Kept jobs) ∧ (s.step dir t).1.Of j := by
  cases s with
  | asking opts f =>
    obtain rfl : j = ⟨opts, .file f⟩ := h
    rw [Job.Stage.step]
    split
    · next c answer => exact ⟨holds, (consulting_same hashed cacheable holds mem answer).1⟩
    · next c e answer =>
      obtain ⟨same, entry⟩ := consulting_same hashed cacheable holds mem answer
      exact ⟨holds, same, opts, f, rfl, rfl, entry e rfl⟩
  | keeping c key e =>
    obtain ⟨same, opts, f, rfl, rfl, rfl⟩ := h
    rw [Job.Stage.step]
    split
    · next stored => exact ⟨holds.put ⟨opts, f, mem, rfl, rfl⟩ stored, same⟩
    · exact ⟨holds, same.path, same.file, same.program, same.bag, same.aborted⟩
  | done c => exact ⟨holds, h⟩

end

/-! ## Any order of steps -/

namespace Batch

variable {s : Batch}

theorem length_step (i : Nat) : (s.step dir i).stages.length = s.stages.length := by
  unfold step
  split
  · rfl
  · exact List.length_set

theorem getElem?_step_ne {i k : Nat} (other : i ≠ k) : (s.step dir i).stages[k]? = s.stages[k]? := by
  unfold step
  split
  · rfl
  · exact List.getElem?_set_ne other

theorem step_of_getElem? {i : Nat} {stage : Job.Stage} (h : s.stages[i]? = some stage) :
    (s.step dir i).stages[i]? = some (stage.step dir s.tree).1 ∧ (s.step dir i).tree = (stage.step dir s.tree).2 := by
  obtain ⟨inside, -⟩ := List.getElem?_eq_some_iff.1 h
  unfold step
  rw [h]
  exact ⟨List.getElem?_set_self inside, rfl⟩

/-- Every compilation is at a stage of its own, and the cache holds entries of these files alone. -/
structure Fair (jobs : List Job) (dir : Bytes) (s : Batch) : Prop where
  holds : CacheHolds s.tree dir (Kept jobs)
  length : s.stages.length = jobs.length
  stages : ∀ (i : Nat) j stage, jobs[i]? = some j → s.stages[i]? = some stage → Job.Stage.Of j stage

section
variable (hashed : Hashed jobs) (cacheable : Cacheable jobs) (fair : s.Fair jobs dir)
include hashed cacheable fair

theorem Fair.step (i : Nat) : (s.step dir i).Fair jobs dir := by
  cases here : s.stages[i]? with
  | none =>
    unfold Batch.step
    rw [here]
    exact fair
  | some stage =>
    obtain ⟨inside, -⟩ := List.getElem?_eq_some_iff.1 here
    rw [fair.length] at inside
    have job : jobs[i]? = some jobs[i] := List.getElem?_eq_getElem inside
    obtain ⟨moved, tree⟩ := @step_of_getElem? dir _ _ _ here
    obtain ⟨holds, next⟩ :=
      (fair.stages i _ stage job here).step hashed cacheable fair.holds (List.mem_of_getElem? job)
    refine ⟨tree ▸ holds, by rw [length_step, fair.length], fun k j after found there => ?_⟩
    by_cases same : i = k
    · subst same
      rw [moved] at there
      rw [job] at found
      cases found
      cases there
      exact next
    · rw [getElem?_step_ne same] at there
      exact fair.stages k j after found there

theorem Fair.run (schedule : List Nat) : (s.run dir schedule).Fair jobs dir := by
  induction schedule generalizing s with
  | nil => exact fair
  | cons i schedule ih => exact ih (fair.step hashed cacheable i)

end

theorem fair_start (holds : CacheHolds t dir (Kept jobs)) : (start t jobs).Fair jobs dir := by
  refine ⟨holds, List.length_map _, fun i j stage found there => ?_⟩
  rw [start, List.getElem?_map, found] at there
  cases there
  exact Job.Stage.of_start j

theorem left_run {i : Nat} (schedule : List Nat) {stage : Job.Stage} (h : s.stages[i]? = some stage) :
    ∃ after, (s.run dir schedule).stages[i]? = some after ∧ after.left ≤ stage.left - schedule.count i := by
  induction schedule generalizing s stage with
  | nil => exact ⟨stage, h, Nat.le_refl _⟩
  | cons k schedule ih =>
    by_cases same : k = i
    · subst same
      obtain ⟨after, there, less⟩ := ih (@step_of_getElem? dir _ _ _ h).1
      refine ⟨after, there, Nat.le_trans less ?_⟩
      have once := stage.left_step dir s.tree
      rw [List.count_cons_self]
      omega
    · rw [List.count_cons_of_ne same]
      exact ih (by rw [getElem?_step_ne same, h])

end Batch

/-! ## One after another -/

theorem compileFile_steps (t : FileTree) (opts : CompileOptions) (dir : Bytes) (f : SourceFile) :
    ((Job.Stage.asking opts f).step dir t).1.step dir ((Job.Stage.asking opts f).step dir t).2 =
      (.done (t.compileFile opts (some dir) f).1, (t.compileFile opts (some dir) f).2) := by
  unfold FileTree.compileFile
  rw [Job.Stage.step]
  dsimp only
  cases consulting opts f (.ofStored (t.read (entryPath dir (cacheKey f.hash opts))).toOption) with
  | mk c kept =>
    cases kept with
    | none => rfl
    | some e =>
      dsimp only
      rw [Job.Stage.step]
      cases t.putEntry dir (cacheKey f.hash opts) e <;> rfl

variable {opts : CompileOptions} {f : SourceFile}

theorem compileFile_same (hashed : Hashed jobs) (cacheable : Cacheable jobs) (holds : CacheHolds t dir (Kept jobs))
    (mem : ⟨opts, .file f⟩ ∈ jobs) :
    CacheHolds (t.compileFile opts (some dir) f).2 dir (Kept jobs) ∧
      SameOutcome (t.compileFile opts (some dir) f).1 (fresh opts f) := by
  obtain ⟨asked, stage⟩ := (Job.Stage.of_start ⟨opts, .file f⟩).step hashed cacheable holds mem
  have kept := stage.step hashed cacheable asked mem
  rwa [show Job.Stage.start ⟨opts, .file f⟩ = .asking opts f from rfl, compileFile_steps] at kept

theorem compileAll_none (t : FileTree) (opts : CompileOptions) (loaded : List FileTree.Loaded) :
    t.compileAll opts none loaded = (loaded.map fun source => Job.plain ⟨opts, source⟩, t) := by
  induction loaded with
  | nil => rfl
  | cons source loaded ih =>
    cases source <;>
    · rw [FileTree.compileAll]
      dsimp only [FileTree.compileFile]
      rw [ih]
      rfl

theorem compileAll_same (hashed : Hashed jobs) (cacheable : Cacheable jobs) (holds : CacheHolds t dir (Kept jobs))
    {loaded : List FileTree.Loaded} (mem : ∀ source ∈ loaded, ⟨opts, source⟩ ∈ jobs) :
    (t.compileAll opts (some dir) loaded).1.length = loaded.length ∧
      ∀ (i : Nat) source, loaded[i]? = some source → ∃ c, (t.compileAll opts (some dir) loaded).1[i]? = some c ∧
        SameOutcome c (Job.plain ⟨opts, source⟩) := by
  induction loaded generalizing t with
  | nil => exact ⟨rfl, nofun⟩
  | cons source loaded ih =>
    have others : ∀ source ∈ loaded, ⟨opts, source⟩ ∈ jobs :=
      fun source later => mem source (List.mem_cons_of_mem _ later)
    -- the first outcome, and then those of the others in the tree it leaves
    obtain ⟨first, t', split, same, holds⟩ : ∃ first t',
        t.compileAll opts (some dir) (source :: loaded) =
          (first :: (t'.compileAll opts (some dir) loaded).1, (t'.compileAll opts (some dir) loaded).2) ∧
        SameOutcome first (Job.plain ⟨opts, source⟩) ∧ CacheHolds t' dir (Kept jobs) := by
      cases source with
      | failed path reason => exact ⟨_, t, rfl, ⟨rfl, rfl, rfl, rfl, rfl⟩, holds⟩
      | file f =>
        obtain ⟨holds, same⟩ := compileFile_same hashed cacheable holds (mem _ List.mem_cons_self)
        exact ⟨_, _, rfl, same, holds⟩
    obtain ⟨length, rest⟩ := ih holds others
    rw [split]
    refine ⟨congrArg (· + 1) length, fun i source' found => ?_⟩
    cases i with
    | zero =>
      cases found
      exact ⟨first, rfl, same⟩
    | succ i => exact rest i source' found

/-! ## Files of a directory -/

/-- What was read for a path: a file of the set with its content, or why there is none. -/
def LoadedFrom (t : FileTree) (fs : FileSet) (path : Bytes) : FileTree.Loaded → Prop
  | .file f => ∃ content, t.read path = .ok content ∧ fs.get? f.id = some f ∧ f.path = Path.clean path ∧
      f.content = (withoutMark content).1 ∧ f.hash = Sha256.hash f.content
  | .failed shown reason => ∃ e, t.read path = .error e ∧ shown = Path.clean path ∧ reason = e.message

theorem get?_addLoaded {fs : FileSet} {id : FileId} (h : fs.get? id = some f) (path content : Bytes) :
    (fs.addLoaded path content).2.get? id = some f := by
  obtain ⟨inside, -⟩ := List.getElem?_eq_some_iff.1 h
  exact (List.getElem?_append_left inside).trans h

theorem get?_addLoaded_self (fs : FileSet) (path content : Bytes) :
    ∃ f, (fs.addLoaded path content).2.get? (fs.addLoaded path content).1 = some f ∧
      f.id = (fs.addLoaded path content).1 ∧ f.path = Path.clean path ∧ f.content = (withoutMark content).1 ∧
      f.hash = Sha256.hash f.content :=
  ⟨_, List.getElem?_concat_length, rfl, rfl, rfl, rfl⟩

theorem get?_load {fs : FileSet} {paths : List Bytes} {id : FileId} (h : fs.get? id = some f) :
    (t.load fs paths).1.get? id = some f := by
  induction paths generalizing fs with
  | nil => exact h
  | cons path paths ih =>
    unfold FileTree.load
    split
    · exact ih (get?_addLoaded h _ _)
    · exact ih h

theorem load_cons (fs : FileSet) (path : Bytes) (paths : List Bytes) :
    ∃ fs' source, t.load fs (path :: paths) = ((t.load fs' paths).1, source :: (t.load fs' paths).2) ∧
      LoadedFrom t (t.load fs' paths).1 path source := by
  rw [FileTree.load]
  split
  · next content read =>
    obtain ⟨f, found, id, named, cut, digest⟩ := get?_addLoaded_self fs path content
    refine ⟨(fs.addLoaded path content).2, .file f, ?_, content, read, get?_load (id ▸ found), named, cut, digest⟩
    dsimp only
    rw [found]
  · next e read => exact ⟨fs, _, rfl, e, read, rfl, rfl⟩

theorem load_each (fs : FileSet) (paths : List Bytes) :
    (t.load fs paths).2.length = paths.length ∧
      ∀ (i : Nat) path, paths[i]? = some path → ∃ source, (t.load fs paths).2[i]? = some source ∧
        LoadedFrom t (t.load fs paths).1 path source := by
  induction paths generalizing fs with
  | nil => exact ⟨rfl, nofun⟩
  | cons path paths ih =>
    obtain ⟨fs', source, split, first⟩ := @load_cons t fs path paths
    obtain ⟨length, rest⟩ := ih fs'
    rw [split]
    refine ⟨congrArg (· + 1) length, fun i path' found => ?_⟩
    cases i with
    | zero =>
      cases found
      exact ⟨source, rfl, first⟩
    | succ i => exact rest i path' found

/-- The compilations of the listed sources of a directory. -/
def FileTree.directoryJobs (t : FileTree) (opts : CompileOptions) (root : Bytes) (sources : List Bytes) : List Job :=
  (t.load { base := root } sources).2.map fun source => ⟨opts, source⟩

theorem hashed_directoryJobs (t : FileTree) (opts : CompileOptions) (root : Bytes) (sources : List Bytes) :
    Hashed (t.directoryJobs opts root sources) := by
  intro opts' f mem
  obtain ⟨source, loaded, same⟩ := List.mem_map.1 mem
  obtain ⟨rfl, rfl⟩ := Job.mk.inj same
  obtain ⟨i, here⟩ := List.mem_iff_getElem?.1 loaded
  obtain ⟨length, each⟩ := @load_each t { base := root } sources
  obtain ⟨inside, -⟩ := List.getElem?_eq_some_iff.1 here
  rw [length] at inside
  obtain ⟨source, there, origin⟩ := each i sources[i] (List.getElem?_eq_getElem inside)
  rw [here] at there
  cases there
  obtain ⟨-, -, -, -, -, digest⟩ := origin
  exact digest

/-- A directory compiled with a cache has at each place the outcome of the source listed there, and it is the
one that there is without the cache. -/
structure DirectoryAgrees (t : FileTree) (dir : Bytes) (opts : CompileOptions) (root : Bytes) (sources : List Bytes) :
    Prop where
  length : (t.compileDirectory opts (some dir) root sources).1.files.length = sources.length
  each : ∀ (i : Nat) path, sources[i]? = some path → ∃ source c,
    LoadedFrom t (t.compileDirectory opts (some dir) root sources).1.fileSet path source ∧
    (t.directoryJobs opts root sources)[i]? = some ⟨opts, source⟩ ∧
    (t.compileDirectory opts none root sources).1.files[i]? = some (Job.plain ⟨opts, source⟩) ∧
    (t.compileDirectory opts (some dir) root sources).1.files[i]? = some c ∧
    SameOutcome c (Job.plain ⟨opts, source⟩)

theorem directoryAgrees {root : Bytes} {sources : List Bytes}
    (cacheable : Cacheable (t.directoryJobs opts root sources))
    (holds : CacheHolds t dir (Kept (t.directoryJobs opts root sources))) :
    DirectoryAgrees t dir opts root sources := by
  obtain ⟨loaded, each⟩ := @load_each t { base := root } sources
  have mem : ∀ source ∈ (t.load { base := root } sources).2, ⟨opts, source⟩ ∈ t.directoryJobs opts root sources :=
    fun source mem => List.mem_map_of_mem mem
  obtain ⟨length, same⟩ := compileAll_same (hashed_directoryJobs t opts root sources) cacheable holds mem
  refine ⟨length.trans loaded, fun i path listed => ?_⟩
  obtain ⟨source, found, origin⟩ := each i path listed
  obtain ⟨c, outcome, same⟩ := same i source found
  refine ⟨source, c, origin, ?_, ?_, outcome, same⟩
  · rw [FileTree.directoryJobs, List.getElem?_map, found]
    rfl
  · show (t.compileAll opts none (t.load { base := root } sources).2).1[i]? = _
    rw [compileAll_none, List.getElem?_map, found]
    rfl

/-- A cache that starts without entries changes no outcome, in whatever order compilations ask it and keep
their entries: each of them ends after its two steps, with the outcome it has without a cache. In a directory
the outcome at each place is that of the source listed there. -/
theorem cache_transparent (sound : t.Sound)
    (empty : ∀ key names e, t.place false (entryPath dir key) ≠ .ok (.found names e)) :
    (∀ jobs, Hashed jobs → Cacheable jobs → ∀ (schedule : List Nat) (i : Nat) j, jobs[i]? = some j →
      (2 ≤ schedule.count i → ∃ c, ((Batch.start t jobs).run dir schedule).outcome? i = some c) ∧
      ∀ c, ((Batch.start t jobs).run dir schedule).outcome? i = some c → SameOutcome c j.plain) ∧
    ∀ opts root sources, Cacheable (t.directoryJobs opts root sources) → DirectoryAgrees t dir opts root sources := by
  have holds (jobs : List Job) : CacheHolds t dir (Kept jobs) :=
    ⟨sound, fun key names e found => absurd found (empty key names e)⟩
  refine ⟨fun jobs hashed cacheable schedule i j job => ?_, fun opts root sources cacheable =>
    directoryAgrees cacheable (holds _)⟩
  have started : (Batch.start t jobs).stages[i]? = some (.start j) := by
    rw [Batch.start, List.getElem?_map, job]
    rfl
  obtain ⟨after, there, less⟩ := @Batch.left_run dir _ i schedule _ started
  have fair := (Batch.fair_start (holds jobs)).run hashed cacheable schedule
  unfold Batch.outcome?
  rw [there]
  refine ⟨fun twice => Job.Stage.exists_outcome ?_, fun c ended => ?_⟩
  · have most := Job.Stage.left_start j
    omega
  · have stage := fair.stages i j after job there
    cases after with
    | asking => cases ended
    | keeping => cases ended
    | done c' =>
      cases ended
      exact stage

/-! Two files with the same text, one statement of which is in error, and a cache in a directory that is yet
to be made. -/

private def twinText : Bytes := "let x = 1; y;"

private def twinTree : FileTree :=
  { entries := deviceEntries ++ [([Bytes.ofString "a"], .file twinText), ([Bytes.ofString "b"], .file twinText)] }

private def twinFile (id : FileId) (path : Bytes) : SourceFile :=
  { id, path := Path.clean path, content := twinText, lineFeeds := lineFeeds twinText, hash := Sha256.hash twinText }

private def twinJobs : List Job := twinTree.directoryJobs {} "/" [Bytes.ofString "/a", Bytes.ofString "/b"]

private theorem twinTree_read : ∀ path ∈ [Bytes.ofString "/a", Bytes.ofString "/b"],
    twinTree.read path = .ok twinText := by
  have place {name : Bytes} (plain : name ≠ [] ∧ name ≠ "." ∧ name ≠ ".." ∧ name.length ≤ 255)
      (found : twinTree.entry? [name] = some (.file twinText)) :
      twinTree.walk true FileTree.maxLinks [] [[], name] = .ok (.found [name] (.file twinText)) := by
    rw [FileTree.walk_empty]
    exact (twinTree.walk_last true _ [] plain).1 _ found nofun
  intro path mem
  unfold FileTree.read FileTree.lookup
  rcases List.mem_cons.1 mem with rfl | mem
  · rw [show twinTree.place true "/a" = twinTree.walk true FileTree.maxLinks [] [[], Bytes.ofString "a"] from rfl,
      place (by decide) (by decide)]
  · cases List.mem_singleton.1 mem
    rw [show twinTree.place true "/b" = twinTree.walk true FileTree.maxLinks [] [[], Bytes.ofString "b"] from rfl,
      place (by decide) (by decide)]

private theorem twinJobs_eq : twinJobs = [⟨{}, .file (twinFile 0 "/a")⟩, ⟨{}, .file (twinFile 1 "/b")⟩] := by
  unfold twinJobs FileTree.directoryJobs
  rw [FileTree.load, twinTree_read _ (by decide)]
  dsimp only
  rw [FileTree.load, twinTree_read _ (by decide)]
  rfl

private theorem mem_twinJobs (mem : ⟨opts, .file f⟩ ∈ twinJobs) :
    opts = {} ∧ f ∈ [twinFile 0 "/a", twinFile 1 "/b"] := by
  rw [twinJobs_eq] at mem
  rcases List.mem_cons.1 mem with first | mem
  · cases first
    exact ⟨rfl, List.mem_cons_self⟩
  · cases List.mem_singleton.1 mem
    exact ⟨rfl, List.mem_cons_of_mem _ List.mem_cons_self⟩

private theorem twinTree_sound : twinTree.Sound := FileTree.sound_of_entries (by decide) (by decide)

private theorem twinTree_empty (key : Digest) (names : List Bytes) (e : FileEntry) :
    twinTree.place false (entryPath "/c" key) ≠ .ok (.found names e) := by
  intro found
  obtain ⟨units, left, way⟩ := exists_reaches_units found
  rw [show unitsOf "/c" = [Bytes.ofString "c"] ++ [Bytes.ofString "units"] by decide] at way
  obtain ⟨above, between, first, -⟩ := way.split
  exact (first.entry_of_plain (by constructor <;> decide)).1 (by decide)

private theorem twinJobs_cacheable : Cacheable twinJobs where
  clean := by
    have clean : Sha256.NoCollision (hashedFor twinText {}) := by
      unfold Sha256.NoCollision
      decide +kernel
    refine clean.subset fun x mem => ?_
    rw [twinJobs_eq] at mem
    rcases List.mem_append.1 mem with first | second
    · exact first
    · exact second
  fits opts f mem := by
    have all : ∀ f ∈ [twinFile 0 "/a", twinFile 1 "/b"], ((fresh {} f).entry f).pack.length < 0x100000000 := by
      decide +kernel
    obtain ⟨rfl, twin⟩ := mem_twinJobs mem
    exact all f twin
  size opts f mem := by
    have all : ∀ f ∈ [twinFile 0 "/a", twinFile 1 "/b"], f.content.length < 0x4000000000000000 := by decide
    exact all f (mem_twinJobs mem).2

theorem cache_transparent_twins :
    (∀ schedule ∈ [[0, 1, 0, 1], [0, 0, 1, 1], [1, 0, 0, 1]],
      ∃ c, ((Batch.start twinTree twinJobs).run "/c" schedule).outcome? 1 = some c ∧
        SameOutcome c (fresh {} (twinFile 1 "/b"))) ∧
    DirectoryAgrees twinTree "/c" {} "/" [Bytes.ofString "/a", Bytes.ofString "/b"] := by
  obtain ⟨batches, directories⟩ := cache_transparent twinTree_sound twinTree_empty
  refine ⟨fun schedule mem => ?_, directories {} "/" _ twinJobs_cacheable⟩
  have second : twinJobs[1]? = some ⟨{}, .file (twinFile 1 "/b")⟩ := by
    rw [twinJobs_eq]
    rfl
  have twice : ∀ schedule ∈ [[0, 1, 0, 1], [0, 0, 1, 1], [1, 0, 0, 1]], 2 ≤ schedule.count 1 := by decide
  obtain ⟨ends, same⟩ := batches twinJobs (hashed_directoryJobs _ _ _ _) twinJobs_cacheable schedule 1 _ second
  obtain ⟨c, outcome⟩ := ends (twice schedule mem)
  exact ⟨c, outcome, same c outcome⟩

end LetStack
