import LetStack.Build.Basic
import LetStack.Proofs.Compile.Failing
import LetStack.Proofs.Files.Walk

/-!
`FileTree.build` writes an artifact for each file whose compilation has no error in its bag. That is every file that
does not fail, and one that fails where the warnings of the scanner fill the bag (`failure_known_within_limit`,
`stray_byte_hides_failure`).
-/

namespace LetStack
open Compilation

/-! ## Compilations of a build -/

/-- A file as it is read from the tree. -/
def ReadFrom (t : FileTree) (f : SourceFile) : Prop :=
  ∃ path content, t.read path = .ok content ∧ f.path = Path.clean path ∧ f.content = (withoutMark content).1

/-- A compilation of a file, with what the cache answered if there is one. -/
structure CompiledFrom (opts : CompileOptions) (cacheDir? : Option Bytes) (f : SourceFile) (answer : CacheAnswer)
    (c : Compilation) : Prop where
  asked : cacheDir? = none → answer = .miss
  path : c.path = f.path
  program : c.program = (consulting opts f answer).1.program
  bag : c.bag = (consulting opts f answer).1.bag

theorem compileFile_compiled (t : FileTree) (opts : CompileOptions) (cacheDir? : Option Bytes) (f : SourceFile) :
    ∃ answer, CompiledFrom opts cacheDir? f answer (t.compileFile opts cacheDir? f).1 := by
  cases cacheDir? with
  | none => exact ⟨.miss, fun _ => rfl, consulting_path opts f .miss, rfl, rfl⟩
  | some dir =>
    refine ⟨.ofStored (t.read (entryPath dir (cacheKey f.hash opts))).toOption, ?_⟩
    have path := consulting_path opts f (.ofStored (t.read (entryPath dir (cacheKey f.hash opts))).toOption)
    unfold FileTree.compileFile
    dsimp only
    cases outcome : consulting opts f (.ofStored (t.read (entryPath dir (cacheKey f.hash opts))).toOption) with
    | mk c entry =>
      rw [outcome] at path
      cases entry with
      | none => exact ⟨nofun, path, by rw [outcome], by rw [outcome]⟩
      | some e =>
        dsimp only
        split <;> exact ⟨nofun, path, by rw [outcome], by rw [outcome]⟩

variable {t : FileTree} {fs : FileSet} {c : Compilation} {r : BuildRequest}

theorem readFrom_addLoaded {path content : Bytes} {f : SourceFile} (read : t.read path = .ok content)
    (h : (fs.addLoaded path content).2.get? (fs.addLoaded path content).1 = some f) : ReadFrom t f := by
  simp only [FileSet.addLoaded, FileSet.add, FileSet.get?, FileSet.size, List.getElem?_concat_length] at h
  cases h
  exact ⟨path, content, read, rfl, rfl⟩

theorem readFrom_load {paths : List Bytes} {f : SourceFile} (h : .file f ∈ (t.load fs paths).2) : ReadFrom t f := by
  induction paths generalizing fs with
  | nil => cases h
  | cons path paths ih =>
    unfold FileTree.load at h
    split at h
    · next content read =>
      dsimp only at h
      cases found : (fs.addLoaded path content).2.get? (fs.addLoaded path content).1 with
      | none =>
        rw [found] at h
        rcases List.mem_cons.1 h with this | later
        · cases this
        · exact ih later
      | some f' =>
        rw [found] at h
        rcases List.mem_cons.1 h with this | later
        · cases this
          exact readFrom_addLoaded read found
        · exact ih later
    · rcases List.mem_cons.1 h with this | later
      · cases this
      · exact ih later

theorem compileAll_cases {opts : CompileOptions} {cacheDir? : Option Bytes} {loaded : List FileTree.Loaded}
    (h : c ∈ (t.compileAll opts cacheDir? loaded).1) :
    c.hasFailed = true ∨ ∃ f answer, .file f ∈ loaded ∧ CompiledFrom opts cacheDir? f answer c := by
  induction loaded generalizing t with
  | nil => cases h
  | cons first loaded ih =>
    -- the tree is another one for each file, since the cache may have grown
    have onward {t : FileTree} (later : c ∈ (t.compileAll opts cacheDir? loaded).1) :
        c.hasFailed = true ∨ ∃ f answer, .file f ∈ first :: loaded ∧ CompiledFrom opts cacheDir? f answer c := by
      rcases ih later with failed | ⟨f, answer, member, compiled⟩
      · exact .inl failed
      · exact .inr ⟨f, answer, List.mem_cons_of_mem _ member, compiled⟩
    cases first with
    | failed path reason =>
      rcases List.mem_cons.1 h with this | later
      · exact .inl (this ▸ unreadable_hasFailed opts path reason)
      · exact onward later
    | file f =>
      rcases List.mem_cons.1 h with this | later
      · obtain ⟨answer, compiled⟩ := compileFile_compiled t opts cacheDir? f
        exact .inr ⟨f, answer, List.mem_cons_self, this ▸ compiled⟩
      · exact onward later

theorem compile_cases {t' : FileTree} {opts : CompileOptions} {cacheDir? : Option Bytes} {path : Bytes}
    (h : t.compile opts cacheDir? path = .ok (fs, c, t')) :
    c.hasFailed = true ∨ ∃ f answer, ReadFrom t f ∧ CompiledFrom opts cacheDir? f answer c := by
  unfold FileTree.compile at h
  cases read : t.read path with
  | error e =>
    rw [read] at h
    cases h
  | ok content =>
    rw [read] at h
    simp only [bind, Except.bind] at h
    split at h
    · next f found =>
      have outcome : t.compileFile opts cacheDir? f = (c, t') := (Prod.mk.inj (Except.ok.inj h)).2
      obtain ⟨answer, compiled⟩ := compileFile_compiled t opts cacheDir? f
      rw [outcome] at compiled
      exact .inr ⟨f, answer, readFrom_addLoaded read found, compiled⟩
    · cases h
      exact .inl (unreadable_hasFailed opts path [])

/-- A compilation of a target is reported as failed, or it is that of a file of the tree. Nothing is
written yet. -/
theorem compileTarget_files (t : FileTree) (r : BuildRequest) :
    (t.compileTarget r).outputs = [] ∧
      ∀ target, (t.compileTarget r).compiled = some target → ∀ c ∈ target.files,
        c.hasFailed = true ∨ ∃ f answer, ReadFrom t f ∧ CompiledFrom r.options r.cacheDir? f answer c := by
  unfold FileTree.compileTarget
  split
  · exact ⟨rfl, nofun⟩
  · next sources isDir _ =>
    dsimp only
    split
    · refine ⟨rfl, ?_⟩
      rintro target ⟨⟩ c member
      rcases compileAll_cases member with failed | ⟨f, answer, loaded, compiled⟩
      · exact .inl failed
      · exact .inr ⟨f, answer, readFrom_load loaded, compiled⟩
    · split
      · next compiled =>
        refine ⟨rfl, ?_⟩
        rintro target ⟨⟩ c member
        cases List.mem_singleton.1 member
        exact compile_cases compiled
      · refine ⟨rfl, ?_⟩
        rintro target ⟨⟩ c member
        cases member

/-! ## Artifacts -/

namespace BuildOutcome

variable {root path : Bytes} {format : EmitFormat} {o : BuildOutcome}

theorem mem_outputs_emitOne {name : Bytes} {c : Compilation} (h : path ∈ (o.emitOne root format name c).outputs) :
    path ∈ o.outputs ∨ (c.hasFailed = false ∧ path = artifactPath root name format) := by
  unfold emitOne at h
  split at h
  · exact .inl h
  · next going =>
    dsimp only at h
    split at h
    · rcases List.mem_append.1 h with before | this
      · exact .inl before
      · exact .inr ⟨Bool.eq_false_iff.2 fun failed => going (.inr failed), List.mem_singleton.1 this⟩
    · exact .inl h

theorem mem_outputs_foldl {named : List (Bytes × Compilation)}
    (h : path ∈ (named.foldl (fun o (n, c) => o.emitOne root format n c) o).outputs) :
    path ∈ o.outputs ∨ ∃ name c, (name, c) ∈ named ∧ c.hasFailed = false ∧ path = artifactPath root name format := by
  induction named generalizing o with
  | nil => exact .inl h
  | cons first named ih =>
    rcases ih h with before | ⟨name, c, member, succeeded, place⟩
    · rcases mem_outputs_emitOne before with before | ⟨succeeded, place⟩
      · exact .inl before
      · exact .inr ⟨first.1, first.2, List.mem_cons_self, succeeded, place⟩
    · exact .inr ⟨name, c, List.mem_cons_of_mem first member, succeeded, place⟩

theorem mem_outputs_emitted (none : o.outputs = []) (h : path ∈ (o.emitted root format).outputs) :
    ∃ target name c, o.compiled = some target ∧ (name, c) ∈ target.names.zip target.files ∧
      c.hasFailed = false ∧ path = artifactPath root name format := by
  unfold emitted at h
  split at h
  · next target compiled =>
    split at h
    · rw [none] at h
      cases h
    · have written : path ∈ ((target.names.zip target.files).foldl
          (fun o (n, c) => o.emitOne root format n c) o).outputs := by
        unfold emitAll at h
        dsimp only at h
        split at h <;> exact h
      rcases mem_outputs_foldl written with before | ⟨name, c, member, succeeded, place⟩
      · rw [none] at before
        cases before
      · exact ⟨target, name, c, compiled, member, succeeded, place⟩
  · rw [none] at h
    cases h

end BuildOutcome

theorem build_of_emit {format : EmitFormat} (emit : r.emit = format.name) (t : FileTree) :
    t.build r = (t.compileTarget r).emitted (outputRoot r) format := by
  have chosen : (if r.emit = [] then some .none else EmitFormat.ofName? r.emit) = some format := by
    rw [emit]
    cases format <;> decide
  rw [FileTree.build, chosen]

/-- One source has its artifact written, unless its compilation says that it failed. -/
theorem build_of_file {t' t'' : FileTree} {source name : Bytes} {format : EmitFormat} (emit : r.emit = format.name)
    (wanted : format ≠ .none) (sources : t.targetSources r.target = .ok ([source], false))
    (named : displayNames t.workDir r.base [source] = [name])
    (compiled : t.compile r.options r.cacheDir? r.target = .ok (fs, c, t')) (succeeded : c.hasFailed = false)
    (written : t'.writeArtifact (artifactPath (outputRoot r) name format) format c.program = .ok t'') :
    (t.build r).outputs = [artifactPath (outputRoot r) name format] ∧ (t.build r).error = none := by
  rw [build_of_emit emit]
  unfold FileTree.compileTarget
  rw [sources]
  dsimp only
  rw [if_neg Bool.false_ne_true, compiled, named]
  simp [BuildOutcome.emitted, BuildOutcome.emitAll, BuildOutcome.emitOne, wanted, succeeded, written]

theorem exists_writeArtifact {path name : Bytes} (dir : Path.dir path = Bytes.ofString "/")
    (free : t.place true path = .ok (.free [name] false)) (format : EmitFormat) (p : Machine.Program) :
    ∃ t', t.writeArtifact path format p = .ok t' := by
  have root : t.makeDirectories (Path.dir path) = .ok t := by
    have steps : t.place true "/" = t.walk true FileTree.maxLinks [] [[], []] := rfl
    have stat : t.stat "/" = .ok .directory := by
      unfold FileTree.stat FileTree.lookup
      rw [steps, FileTree.walk_empty, FileTree.walk_empty, FileTree.walk]
      rfl
    rw [dir]
    unfold FileTree.makeDirectories FileTree.makeDirectoriesWithin
    rw [stat]
  unfold FileTree.writeArtifact
  rw [root]
  show ∃ t', t.write path _ = .ok t'
  unfold FileTree.write FileTree.create
  rw [free]
  exact ⟨_, rfl⟩

/-! ## Files that fail -/

/-- The artifact at a path, by the compilation that it is written for and the file that was compiled. -/
structure ArtifactOf (t : FileTree) (r : BuildRequest) (path : Bytes) (f : SourceFile) (answer : CacheAnswer)
    (c : Compilation) : Prop where
  read : ReadFrom t f
  compiled : CompiledFrom r.options r.cacheDir? f answer c
  named : ∃ target name format, (t.compileTarget r).compiled = some target ∧
    (name, c) ∈ target.names.zip target.files ∧ path = artifactPath (outputRoot r) name format

theorem exists_artifactOf {path : Bytes} (h : path ∈ (t.build r).outputs) :
    ∃ f answer c, ArtifactOf t r path f answer c ∧ c.hasFailed = false := by
  unfold FileTree.build at h
  split at h
  · cases h
  · next format _ =>
    obtain ⟨nothing, files⟩ := compileTarget_files t r
    obtain ⟨target, name, c, found, member, succeeded, place⟩ := BuildOutcome.mem_outputs_emitted nothing h
    rcases files target found c (List.of_mem_zip member).2 with failed | ⟨f, answer, read, compiled⟩
    · rw [succeeded] at failed
      cases failed
    · exact ⟨f, answer, c, ⟨read, compiled, target, name, format, found, member, place⟩, succeeded⟩

/-- A compilation says that its file failed exactly if the file fails and the warnings of the scanner
leave room for an error in the bag, whether the file is compiled or taken from the cache. So a build
writes an artifact of a file that fails only where they leave none. -/
theorem failure_known_within_limit (t : FileTree) (r : BuildRequest) :
    (∀ f, (fresh r.options f).hasFailed = true ↔ Fails r.options f ∧ HasRoom r.options f) ∧
    (∀ f answer, Faithful r.options f answer →
      ((consulting r.options f answer).1.hasFailed = true ↔ Fails r.options f ∧ HasRoom r.options f)) ∧
    ∀ path ∈ (t.build r).outputs, ∃ f answer c, ArtifactOf t r path f answer c ∧
      (Faithful r.options f answer → Fails r.options f → ¬HasRoom r.options f) := by
  refine ⟨hasFailed_fresh_iff r.options, fun f answer => hasFailed_consulting_iff, fun path member => ?_⟩
  obtain ⟨f, answer, c, artifact, succeeded⟩ := exists_artifactOf member
  refine ⟨f, answer, c, artifact, fun faithful fails room => ?_⟩
  have failed := (hasFailed_consulting_iff faithful).2 ⟨fails, room⟩
  unfold hasFailed at failed succeeded
  rw [← artifact.compiled.bag, succeeded] at failed
  cases failed

/-! A source that holds a stray byte and a parenthesis that nothing opens, and a build of it that keeps
one diagnostic and writes a listing. -/

private def strayTree : FileTree :=
  { entries := deviceEntries ++ [([Bytes.ofString "a"], .file [0xFF, 0x29])] }

private def strayRequest : BuildRequest :=
  { target := "/a", options := { limit := 1 }, emit := "ir", out := "/" }

private theorem strayTree_place :
    strayTree.place true "/a" = .ok (.found [Bytes.ofString "a"] (.file [0xFF, 0x29])) := by
  have steps : strayTree.place true "/a" = strayTree.walk true FileTree.maxLinks [] [[], Bytes.ofString "a"] := rfl
  rw [steps, FileTree.walk_empty]
  exact (strayTree.walk_last true _ [] (by decide)).1 _ (by decide) nofun

private theorem strayTree_read : strayTree.read "/a" = .ok [0xFF, 0x29] := by
  unfold FileTree.read FileTree.lookup
  rw [strayTree_place]

private theorem strayTree_writeArtifact (p : Machine.Program) :
    ∃ t, strayTree.writeArtifact "/a.rir" .listing p = .ok t := by
  have free : strayTree.place true "/a.rir" = .ok (.free [Bytes.ofString "a.rir"] false) := by
    have steps : strayTree.place true "/a.rir" =
        strayTree.walk true FileTree.maxLinks [] [[], Bytes.ofString "a.rir"] := rfl
    rw [steps, FileTree.walk_empty]
    exact (strayTree.walk_last true _ [] (by decide)).2 (by decide)
  exact exists_writeArtifact (by decide +kernel) free .listing p

private theorem strayTree_outputs : (strayTree.build strayRequest).outputs = [Bytes.ofString "/a.rir"] := by
  have sources : strayTree.targetSources strayRequest.target = .ok ([Bytes.ofString "/a"], false) := by
    have stat : strayTree.stat strayRequest.target = .ok (.file [0xFF, 0x29]) := by
      unfold FileTree.stat FileTree.lookup
      rw [show strayTree.place true strayRequest.target = _ from strayTree_place]
      rfl
    unfold FileTree.targetSources
    rw [stat]
    rfl
  have compiled : ∃ fs c, strayTree.compile strayRequest.options strayRequest.cacheDir? strayRequest.target =
      .ok (fs, c, strayTree) ∧ c.hasFailed = false := by
    unfold FileTree.compile
    rw [show strayTree.read strayRequest.target = _ from strayTree_read]
    exact ⟨_, _, rfl, by decide +kernel⟩
  have path : artifactPath (outputRoot strayRequest) "/a" .listing = Bytes.ofString "/a.rir" := by decide +kernel
  obtain ⟨fs, c, compiled, succeeded⟩ := compiled
  obtain ⟨t, written⟩ := strayTree_writeArtifact c.program
  rw [← path] at written ⊢
  exact (build_of_file rfl (by decide) sources (by decide +kernel) compiled succeeded written).1

/-- The artifact of the source is there because the warning of the stray byte fills the bag. -/
theorem stray_artifact_has_no_room :
    Bytes.ofString "/a.rir" ∈ (strayTree.build strayRequest).outputs ∧
      ∃ f answer c, ArtifactOf strayTree strayRequest "/a.rir" f answer c ∧
        (Fails strayRequest.options f → ¬HasRoom strayRequest.options f) := by
  have member : Bytes.ofString "/a.rir" ∈ (strayTree.build strayRequest).outputs := by
    rw [strayTree_outputs]
    exact List.mem_singleton_self _
  obtain ⟨f, answer, c, artifact, room⟩ := (failure_known_within_limit strayTree strayRequest).2.2 _ member
  have faithful : Faithful strayRequest.options f answer := by
    rw [artifact.compiled.asked rfl]
    exact nofun
  exact ⟨member, f, answer, c, artifact, room faithful⟩

/-- With room for one diagnostic the warning of the stray byte is kept and the syntax error is not. The
source is not parsed, its compilation does not say that it failed, and a build writes an artifact of it. -/
theorem stray_byte_hides_failure :
    strayTree.read "/a" = .ok [0xFF, 0x29] ∧
    (Grammar.parseModule (tokenize [0xFF, 0x29])).toOption = none ∧
    (ofText { limit := 1 } "/a" [0xFF, 0x29]).1.hasFailed = false ∧
    (strayTree.build strayRequest).outputs = [Bytes.ofString "/a.rir"] :=
  ⟨strayTree_read, by decide +kernel, by decide +kernel, strayTree_outputs⟩

end LetStack
