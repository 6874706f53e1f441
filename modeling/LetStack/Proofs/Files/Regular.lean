import LetStack.Build.Basic
import LetStack.Proofs.Files.Directories

/-!
In a regular tree nothing stands at the same names twice, or at none. The empty tree is regular (`regular_empty`), and
`put`, `enter` and `build` keep a tree so, in any order and number (`Regular.later`, `regular_of_later`).
-/

namespace LetStack.FileTree
open LetStack.Path

structure Regular (t : FileTree) : Prop where
  plain : ∀ x ∈ t.entries, ∀ name ∈ x.1, Plain name
  distinct : (t.entries.map (·.1)).Nodup
  rooted : isAbsolute t.workDir = true

theorem regular_empty : ({} : FileTree).Regular := ⟨by decide, by decide, by decide⟩

variable {t t' : FileTree}

/-- The names of a place, or of an entry that is found. -/
def Place.names : Place → List Bytes
  | .found names _ => names
  | .free names _ => names

theorem plain_concat {here rest : List Bytes} {name : Bytes} (start : ∀ other ∈ here, Plain other)
    (pieces : ∀ piece ∈ name :: rest, slash ∉ piece) (named : ¬(name = [] ∨ name = ".")) (noDots : name ≠ "..") :
    ∀ other ∈ here ++ [name], Plain other := by
  intro other mem
  rcases List.mem_append.1 mem with before | this
  · exact start other before
  · rw [List.mem_singleton.1 this]
    exact ⟨fun empty => named (.inl empty), fun dot => named (.inr dot), noDots, pieces name List.mem_cons_self⟩

theorem walk_plain {follow : Bool} {links : Nat} {here rest : List Bytes} {place : Place}
    (h : t.walk follow links here rest = .ok place) (start : ∀ name ∈ here, Plain name)
    (pieces : ∀ piece ∈ rest, slash ∉ piece) : ∀ name ∈ place.names, Plain name := by
  have behind {name : Bytes} {rest : List Bytes} (pieces : ∀ piece ∈ name :: rest, slash ∉ piece) :
      ∀ piece ∈ rest, slash ∉ piece := fun piece mem => pieces piece (List.mem_cons_of_mem _ mem)
  fun_induction walk t follow links here rest with
  | case1 =>
    cases h
    exact start
  | case2 _ _ _ _ _ ih => exact ih h start (behind pieces)
  | case3 _ here _ _ ih => exact ih h (fun name mem => start name (List.dropLast_subset here mem)) (behind pieces)
  | case7 _ _ _ _ named noDots _ _ _ ih => exact ih h (plain_concat start pieces named noDots) (behind pieces)
  | case10 _ _ _ _ _ _ _ _ _ _ _ ih =>
    -- the target of a link is split at slashes as well
    refine ih h ?_ fun piece mem => ?_
    · split
      · exact fun name mem => absurd mem List.not_mem_nil
      · exact start
    · rcases List.mem_append.1 mem with followed | later
      · exact Bytes.sep_notMem_splitOn followed
      · exact behind pieces piece later
  | case5 _ _ _ _ named noDots | case8 _ _ _ _ named noDots | case11 _ _ _ named noDots =>
    cases h
    exact plain_concat start pieces named noDots
  | case4 | case6 | case9 | case12 => cases h

section
variable (regular : t.Regular)
include regular

theorem Regular.place_plain {follow : Bool} {path : Bytes} {place : Place} (h : t.place follow path = .ok place) :
    ∀ name ∈ place.names, Plain name := by
  unfold FileTree.place at h
  split at h
  · cases h
  split at h
  · cases h
  split at h
  · cases h
  refine walk_plain h ?_ fun piece mem => Bytes.sep_notMem_splitOn mem
  split
  · exact fun name mem => absurd mem List.not_mem_nil
  · have normal := elements_normal t.workDir
    rw [regular.rooted] at normal
    exact normal.plain

theorem Regular.insert {names : List Bytes} (plain : ∀ name ∈ names, Plain name) (e : FileEntry) :
    (t.insert names e).Regular where
  plain := by
    intro x mem
    rcases List.mem_append.1 mem with before | this
    · exact regular.plain x (List.mem_filter.1 before).1
    · rwa [List.mem_singleton.1 this]
  distinct := by
    unfold FileTree.insert
    rw [List.map_append, List.map_singleton, List.nodup_append]
    refine ⟨regular.distinct.sublist (List.filter_sublist.map _), List.pairwise_singleton _ _, ?_⟩
    intro other before last this same
    obtain ⟨x, mem, rfl⟩ := List.mem_map.1 before
    have different := (List.mem_filter.1 mem).2
    rw [List.mem_singleton.1 this] at same
    simp [same] at different
  rooted := regular.rooted

theorem Regular.write {path content : Bytes} (ok : t.write path content = .ok t') : t'.Regular := by
  -- a file is created at names, and filled at the same
  have filled {names : List Bytes} {t : FileTree} (regular : t.Regular) (plain : ∀ name ∈ names, Plain name) :
      (t.fill names content).Regular := by
    unfold fill
    split
    · exact regular.insert plain _
    · exact regular
  unfold FileTree.write create at ok
  split at ok
  · next names content place =>
    cases ok
    have plain := regular.place_plain place
    exact filled (regular.insert plain _) plain
  · next names place =>
    cases ok
    have plain := regular.place_plain place
    exact filled (regular.insert plain _) plain
  · next names place =>
    cases ok
    exact filled regular (regular.place_plain place)
  · cases ok
  · cases ok

theorem Regular.replace {path : Bytes} {e : FileEntry} (ok : t.replace path e = .ok t') : t'.Regular := by
  unfold FileTree.replace at ok
  split at ok
  · cases ok
  · next place =>
    cases ok
    exact regular.insert (regular.place_plain place) e
  · next place =>
    cases ok
    exact regular.insert (regular.place_plain place) e
  · cases ok

theorem Regular.makeDirectoriesWithin {depth : Nat} {path : Bytes} (ok : t.makeDirectoriesWithin depth path = .ok t') :
    t'.Regular := by
  -- the last directory is made in a tree that has those above it
  have last {t₁ t' : FileTree} {p : Bytes} (regular : t₁.Regular) (made : LastMade t₁ t' p) : t'.Regular := by
    rcases made with ⟨names, slashed, free, rfl⟩ | ⟨rfl, -⟩
    · exact regular.insert (regular.place_plain free) .directory
    · exact regular
  induction depth generalizing path t' with
  | zero =>
    cases ok
    exact regular
  | succ depth ih =>
    rw [FileTree.makeDirectoriesWithin] at ok
    split at ok
    · cases ok
      exact regular
    · cases ok
    · dsimp only at ok
      split at ok
      · exact last regular (lastMade ok rfl)
      · cases parents : t.makeDirectoriesWithin depth (parentPath path) with
        | error reason =>
          rw [parents] at ok
          cases ok
        | ok t₁ =>
          rw [parents] at ok
          exact last (ih parents) (lastMade ok rfl)

theorem Regular.put {path : Bytes} {e : FileEntry} (ok : t.put path e = .ok t') : t'.Regular := by
  unfold FileTree.put at ok
  cases parents : t.makeDirectories (Path.dir path) with
  | error reason =>
    rw [parents] at ok
    cases ok
  | ok t₁ =>
    rw [parents] at ok
    have above : t₁.Regular := regular.makeDirectoriesWithin parents
    cases e with
    | file content => exact above.write ok
    | directory => exact above.makeDirectoriesWithin ok
    | link target => exact above.replace ok
    | void => exact above.replace ok

/-! ### Builds -/

theorem Regular.putEntry {cacheDir : Bytes} {key : Digest} {e : CacheEntry} (ok : t.putEntry cacheDir key e = .ok t') :
    t'.Regular := by
  unfold FileTree.putEntry at ok
  dsimp only at ok
  cases parents : t.makeDirectories (Path.dir (entryPath cacheDir key)) with
  | error reason =>
    rw [parents] at ok
    cases ok
  | ok t₁ =>
    rw [parents] at ok
    exact (regular.makeDirectoriesWithin parents).replace ok

theorem Regular.compileFile (opts : CompileOptions) (cacheDir? : Option Bytes) (f : SourceFile) :
    (t.compileFile opts cacheDir? f).2.Regular := by
  unfold FileTree.compileFile
  split
  · exact regular
  · dsimp only
    split
    · exact regular
    · split
      · next stored => exact regular.putEntry stored
      · exact regular

theorem Regular.compile {opts : CompileOptions} {cacheDir? : Option Bytes} {path : Bytes} {fs : FileSet}
    {c : Compilation} (ok : t.compile opts cacheDir? path = .ok (fs, c, t')) : t'.Regular := by
  unfold FileTree.compile at ok
  cases read : t.read path with
  | error reason =>
    rw [read] at ok
    cases ok
  | ok content =>
    rw [read] at ok
    dsimp only [bind, Except.bind] at ok
    split at ok
    · next f _ =>
      have outcome : t.compileFile opts cacheDir? f = (c, t') := (Prod.mk.inj (Except.ok.inj ok)).2
      have kept := regular.compileFile opts cacheDir? f
      rwa [outcome] at kept
    · cases ok
      exact regular

omit regular in
theorem Regular.compileAll {t : FileTree} (regular : t.Regular) (opts : CompileOptions) (cacheDir? : Option Bytes)
    (loaded : List Loaded) : (t.compileAll opts cacheDir? loaded).2.Regular := by
  induction loaded generalizing t with
  | nil => exact regular
  | cons l loaded ih =>
    cases l with
    | failed path reason => exact ih regular
    | file f => exact ih (regular.compileFile opts cacheDir? f)

theorem Regular.compileTarget (r : BuildRequest) : (t.compileTarget r).tree.Regular := by
  unfold FileTree.compileTarget
  split
  · exact regular
  · next sources isDir _ =>
    dsimp only
    split
    · exact regular.compileAll r.options r.cacheDir? _
    · split
      · next compiled => exact regular.compile compiled
      · exact regular

theorem Regular.writeArtifact {path : Bytes} {f : EmitFormat} {p : Machine.Program}
    (ok : t.writeArtifact path f p = .ok t') : t'.Regular := by
  unfold FileTree.writeArtifact at ok
  cases parents : t.makeDirectories (Path.dir path) with
  | error reason =>
    rw [parents] at ok
    cases ok
  | ok t₁ =>
    rw [parents] at ok
    exact (regular.makeDirectoriesWithin parents).write ok

omit regular in
theorem Regular.emitOne {o : BuildOutcome} (regular : o.tree.Regular) (root : Bytes) (f : EmitFormat) (name : Bytes)
    (c : Compilation) : (o.emitOne root f name c).tree.Regular := by
  unfold BuildOutcome.emitOne
  split
  · exact regular
  · dsimp only
    split
    · next written => exact regular.writeArtifact written
    · exact regular

omit regular in
theorem Regular.emitAll {o : BuildOutcome} (regular : o.tree.Regular) (root : Bytes) (f : EmitFormat)
    (target : CompiledTarget) : (o.emitAll root f target).tree.Regular := by
  have written : ((target.names.zip target.files).foldl (fun o x => o.emitOne root f x.1 x.2) o).tree.Regular := by
    induction target.names.zip target.files generalizing o with
    | nil => exact regular
    | cons x rest ih => exact ih (regular.emitOne root f x.1 x.2)
  unfold BuildOutcome.emitAll
  dsimp only
  split
  · exact written
  · exact written

theorem Regular.build (r : BuildRequest) : (t.build r).tree.Regular := by
  have compiled := regular.compileTarget r
  unfold FileTree.build
  split
  · exact regular
  · next f _ =>
    unfold BuildOutcome.emitted
    split
    · split
      · exact compiled
      · exact compiled.emitAll _ f _
    · exact compiled

theorem Regular.enter (dir : Bytes) : (t.enter dir).Regular := by
  unfold FileTree.enter
  split
  · exact ⟨regular.plain, regular.distinct, rfl⟩
  · exact ⟨regular.plain, regular.distinct, isAbsolute_absolute regular.rooted dir⟩

end

/-- A tree that the tree `t` becomes by what is put into it, by entering directories and by builds. -/
inductive Later (t : FileTree) : FileTree → Prop
  | same : Later t t
  | put {t₁ t₂ : FileTree} {path : Bytes} {e : FileEntry} : Later t t₁ → t₁.put path e = .ok t₂ → Later t t₂
  | enter {t₁ : FileTree} (dir : Bytes) : Later t t₁ → Later t (t₁.enter dir)
  | build {t₁ : FileTree} (r : BuildRequest) : Later t t₁ → Later t (t₁.build r).tree

theorem Regular.later (regular : t.Regular) (h : t.Later t') : t'.Regular := by
  induction h with
  | same => exact regular
  | put _ ok ih => exact ih.put ok
  | enter dir _ ih => exact ih.enter dir
  | build r _ ih => exact ih.build r

theorem regular_of_later (h : ({} : FileTree).Later t) : t.Regular := regular_empty.later h

end LetStack.FileTree
